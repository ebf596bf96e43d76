/-!
# SHA-256

The digest of a sequence of octets: the message is padded to blocks of 64 octets, and each block is
mixed into eight words of 32 bits in 64 rounds.
-/

namespace Roster.Sha256

/-- The round constants: the first 32 bits of the fractions of the cube roots of
    the first 64 primes. -/
def roundConstants : List UInt32 := [
  0x428a2f98, 0x71374491, 0xb5c0fbcf, 0xe9b5dba5, 0x3956c25b, 0x59f111f1, 0x923f82a4, 0xab1c5ed5,
  0xd807aa98, 0x12835b01, 0x243185be, 0x550c7dc3, 0x72be5d74, 0x80deb1fe, 0x9bdc06a7, 0xc19bf174,
  0xe49b69c1, 0xefbe4786, 0x0fc19dc6, 0x240ca1cc, 0x2de92c6f, 0x4a7484aa, 0x5cb0a9dc, 0x76f988da,
  0x983e5152, 0xa831c66d, 0xb00327c8, 0xbf597fc7, 0xc6e00bf3, 0xd5a79147, 0x06ca6351, 0x14292967,
  0x27b70a85, 0x2e1b2138, 0x4d2c6dfc, 0x53380d13, 0x650a7354, 0x766a0abb, 0x81c2c92e, 0x92722c85,
  0xa2bfe8a1, 0xa81a664b, 0xc24b8b70, 0xc76c51a3, 0xd192e819, 0xd6990624, 0xf40e3585, 0x106aa070,
  0x19a4c116, 0x1e376c08, 0x2748774c, 0x34b0bcb5, 0x391c0cb3, 0x4ed8aa4a, 0x5b9cca4f, 0x682e6ff3,
  0x748f82ee, 0x78a5636f, 0x84c87814, 0x8cc70208, 0x90befffa, 0xa4506ceb, 0xbef9a3f7, 0xc67178f2]

/-- The eight words that are carried from block to block. -/
structure State where
  a : UInt32
  b : UInt32
  c : UInt32
  d : UInt32
  e : UInt32
  f : UInt32
  g : UInt32
  h : UInt32

/-- The first 32 bits of the fractions of the square roots of the first eight primes. -/
def State.initial : State :=
  ⟨0x6a09e667, 0xbb67ae85, 0x3c6ef372, 0xa54ff53a, 0x510e527f, 0x9b05688c, 0x1f83d9ab, 0x5be0cd19⟩

/-- Adds two states word by word. -/
def State.add (s t : State) : State :=
  ⟨s.a + t.a, s.b + t.b, s.c + t.c, s.d + t.d, s.e + t.e, s.f + t.f, s.g + t.g, s.h + t.h⟩

/-- Rotation to the right by `n` bits, with `n` between 1 and 31. -/
def rotate (x : UInt32) (n : UInt32) : UInt32 :=
  (x >>> n) ||| (x <<< (32 - n))

/-- One round, which takes in a word of the schedule. -/
def State.round (s : State) (constant word : UInt32) : State :=
  let s1 := rotate s.e 6 ^^^ rotate s.e 11 ^^^ rotate s.e 25
  let choice := (s.e &&& s.f) ^^^ ((~~~ s.e) &&& s.g)
  let t1 := s.h + s1 + choice + constant + word
  let s0 := rotate s.a 2 ^^^ rotate s.a 13 ^^^ rotate s.a 22
  let majority := (s.a &&& s.b) ^^^ (s.a &&& s.c) ^^^ (s.b &&& s.c)
  ⟨t1 + (s0 + majority), s.a, s.b, s.c, s.d + t1, s.e, s.f, s.g⟩

/-- Four octets as a word, the first the most significant. -/
def wordsOf : List UInt8 → List UInt32
  | a :: b :: c :: d :: rest =>
    ((a.toUInt32 <<< 24) ||| (b.toUInt32 <<< 16) ||| (c.toUInt32 <<< 8) ||| d.toUInt32) ::
      wordsOf rest
  | _ => []

/-- The octets of a word, the highest first. -/
def octetsOf (w : UInt32) : List UInt8 :=
  [(w >>> 24).toUInt8, (w >>> 16).toUInt8, (w >>> 8).toUInt8, w.toUInt8]

/-- The words after the first sixteen, each from the sixteen before it; `window` holds the last
    sixteen words, the oldest first. -/
def extend : Nat → List UInt32 → List UInt32
  | 0, _ => []
  | n + 1, window =>
    let at_ (i : Nat) : UInt32 := window.getD i 0
    let w15 := at_ 1
    let w2 := at_ 14
    let s0 := rotate w15 7 ^^^ rotate w15 18 ^^^ (w15 >>> 3)
    let s1 := rotate w2 17 ^^^ rotate w2 19 ^^^ (w2 >>> 10)
    let word := at_ 0 + s0 + at_ 9 + s1
    word :: extend n (window.drop 1 ++ [word])

/-- Takes in one block of sixteen words. -/
def State.absorb (s : State) (block : List UInt32) : State :=
  let schedule := block ++ extend 48 block
  s.add ((roundConstants.zip schedule).foldl (fun t (k, w) => t.round k w) s)

/-- The message with its padding: a bit that is set, zeros, and the length in bits. -/
def pad (message : List UInt8) : List UInt8 :=
  let zeros := (119 - message.length % 64) % 64
  let bits := message.length * 8
  message ++ 0x80 :: List.replicate zeros 0 ++
    (List.range 8).map fun i => (bits / Nat.pow 256 (7 - i)).toUInt8

/-- Mixes blocks of sixteen words, at most `n` of them. -/
def absorbBlocks : Nat → State → List UInt32 → State
  | 0, s, _ => s
  | n + 1, s, words =>
    if words.isEmpty then s else absorbBlocks n (s.absorb (words.take 16)) (words.drop 16)

/-- The digest of a message, 32 octets. -/
def digest (message : List UInt8) : List UInt8 :=
  let words := wordsOf (pad message)
  let s := absorbBlocks words.length .initial words
  [s.a, s.b, s.c, s.d, s.e, s.f, s.g, s.h].flatMap octetsOf

end Roster.Sha256
