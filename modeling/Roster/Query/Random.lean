/-!
# Random words

Whatever is decided by chance draws 64-bit words from a source. A `Dice` is such a source and the
number of words taken from it, so that a decision is a function of the words alone.
-/

namespace Roster

/-- Where random words come from, and how many have been taken. -/
structure Dice where
  word : Nat → UInt64
  drawn : Nat := 0

namespace Dice

/-- The words of a generator that steps by an odd constant and mixes each state. -/
def ofSeed (seed : UInt64) : Dice where
  word i :=
    let z := seed + (i + 1).toUInt64 * 0x9e3779b97f4a7c15
    let z := (z ^^^ (z >>> 30)) * 0xbf58476d1ce4e5b9
    let z := (z ^^^ (z >>> 27)) * 0x94d049bb133111eb
    z ^^^ (z >>> 31)

/-- The given words, again and again. -/
def ofWords (words : Array UInt64) : Dice where
  word i := words.getD (i % words.size) 0

/-- The next word. -/
def next (d : Dice) : UInt64 × Dice :=
  (d.word d.drawn, { d with drawn := d.drawn + 1 })

/-- The number in `[0, 1)` that the upper 53 bits of a word give. -/
def unit (w : UInt64) : Float :=
  (w >>> 11).toFloat * Float.ofBits 0x3CA0000000000000

/-- A number drawn uniformly from zero up to one, which takes one word. -/
def nextUnit (d : Dice) : Float × Dice :=
  let (w, d) := d.next
  (unit w, d)

/-- The upper half of the next word. -/
def next32 (d : Dice) : Nat × Dice :=
  let (w, d) := d.next
  ((w >>> 32).toNat, d)

/-- A number below `bound`, where `bound` fits 32 bits: the upper half of a product of 32-bit
    numbers. If the lower half leaves it open whether a carry comes from further digits, one
    more word decides. -/
def below (d : Dice) (bound : Nat) : Nat × Dice :=
  let (x, d) := d.next32
  let high := x * bound / UInt32.size
  let low := x * bound % UInt32.size
  if UInt32.size - bound < low then
    let (y, d) := d.next32
    (if UInt32.size ≤ low + y * bound / UInt32.size then high + 1 else high, d)
  else (high, d)

/-! ## Shuffling -/

/-- Several indices are cut from one random number: `chunk` is what is left of it, and `remaining`
    the number of indices still in it. -/
structure Chunk where
  chunk : Nat
  remaining : Nat

/-- The product `start · (start + 1) · …` of as many factors as fit 32 bits, and their number. -/
def chunkBound (start : Nat) : Nat → Nat → Nat → Nat × Nat
  | 0, product, count => (product, count)
  | fuel + 1, product, count =>
    if product * (start + count) < UInt32.size then
      chunkBound start fuel (product * (start + count)) (count + 1)
    else (product, count)

/-- An index below `n`, where `n` grows by one from call to call. -/
def nextIndex (d : Dice) (c : Chunk) (n : Nat) : Nat × Chunk × Dice :=
  let (c, d) :=
    if c.remaining = 0 then
      let (bound, count) := chunkBound n 32 1 0
      let (chunk, d) := d.below bound
      (Chunk.mk chunk count, d)
    else (c, d)
  let remaining := c.remaining - 1
  if remaining = 0 then (c.chunk, ⟨c.chunk, 0⟩, d)
  else (c.chunk % n, ⟨c.chunk / n, remaining⟩, d)

/-- Puts `x` in the place of the element at an index, which moves to the end; with no such element
    `x` itself goes to the end. -/
def place {α : Type} (done : List α) (index : Nat) (x : α) : List α :=
  match done[index]? with
  | some y => done.set index x ++ [y]
  | none => done ++ [x]

/-- Places elements one after the other at random among those before. -/
def shuffleFrom {α : Type} : List α → List α → Chunk → Dice → List α × Dice
  | done, [], _, d => (done, d)
  | done, x :: rest, c, d =>
    let (index, c, d) := d.nextIndex c (done.length + 1)
    shuffleFrom (place done index x) rest c d

/-- A list in random order. One or no element takes no words. -/
def shuffle {α : Type} (d : Dice) (xs : List α) : List α × Dice :=
  if xs.length ≤ 1 then (xs, d) else shuffleFrom [] xs ⟨0, 1⟩ d

end Dice

end Roster
