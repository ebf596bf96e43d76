import Roster.Json.Basic
import Roster.Json.Symbol

/-!
# Reading JSON

The strict grammar: blanks are the blank, the tab, the line feed and the carriage return, a numeral
has no leading zero and at least one digit on either side of its point, and a string holds no raw
control character. `next` takes one token off a text and `value` one value; what follows is left to
the caller, which is how a value can be judged before what stands after it.

A string is accepted whatever its escapes stand for, as long as they have the right form. Its
content is known only if no octet was stray and every surrogate has its partner.
-/

namespace Roster.Json

open Decimal

/-- The symbols that may stand between tokens. -/
def Symbol.isBlank : Symbol → Bool
  | .char c => c == ' ' || c == '\n' || c == '\t' || c == '\r'
  | .stray _ => false

/-- What follows the blanks at the start. -/
def skipBlanks (s : List Symbol) : List Symbol :=
  s.dropWhile Symbol.isBlank

/-! ## Strings -/

/-- A piece of a string, once its escapes are read. -/
inductive Piece where
  | char (c : Char)
  /-- a 16-bit unit that was written as an escape and is half of a pair -/
  | surrogate (unit : Nat)
  | stray
  deriving Repr, DecidableEq

/-- The value of a hexadecimal digit. -/
def hexValue (c : Char) : Option Nat :=
  if '0' ≤ c ∧ c ≤ '9' then some (c.toNat - '0'.toNat)
  else if 'a' ≤ c ∧ c ≤ 'f' then some (c.toNat - 'a'.toNat + 10)
  else if 'A' ≤ c ∧ c ≤ 'F' then some (c.toNat - 'A'.toNat + 10)
  else none

/-- The number that four hexadecimal digits stand for. -/
def hex4 (a b c d : Char) : Option Nat := do
  let a ← hexValue a
  let b ← hexValue b
  let c ← hexValue c
  let d ← hexValue d
  pure (((a * 16 + b) * 16 + c) * 16 + d)

/-- The character that a letter after a backslash stands for. -/
def shortEscape : Char → Option Char
  | '"' => some '"'
  | '\\' => some '\\'
  | '/' => some '/'
  | 'b' => some '\x08'
  | 'f' => some '\x0c'
  | 'n' => some '\n'
  | 'r' => some '\r'
  | 't' => some '\t'
  | _ => none

/-- The piece that a 16-bit unit stands for by itself. -/
def unitPiece (n : Nat) : Piece :=
  if 0xD800 ≤ n ∧ n < 0xE000 then .surrogate n else .char (Char.ofNat n)

/-- The pieces of a string up to its closing quote, and what follows the quote. -/
def pieces : List Symbol → Option (List Piece × List Symbol)
  | [] => none
  | .char '"' :: rest => some ([], rest)
  | .char '\\' :: .char 'u' :: .char a :: .char b :: .char c :: .char d :: rest =>
    match hex4 a b c d, pieces rest with
    | some n, some (ps, rest') => some (unitPiece n :: ps, rest')
    | _, _ => none
  | .char '\\' :: .char c :: rest =>
    match shortEscape c, pieces rest with
    | some c', some (ps, rest') => some (.char c' :: ps, rest')
    | _, _ => none
  | .char c :: rest =>
    if c == '\\' || c.toNat < 32 then none
    else (pieces rest).map fun (ps, rest') => (.char c :: ps, rest')
  | .stray _ :: rest =>
    (pieces rest).map fun (ps, rest') => (.stray :: ps, rest')

/-- Joins surrogates to characters; one without its partner, and a stray octet, spell nothing. -/
def spell : List Piece → Option (List Char)
  | [] => some []
  | .char c :: rest => (spell rest).map (c :: ·)
  | .surrogate hi :: .surrogate lo :: rest =>
    if hi < 0xDC00 ∧ 0xDC00 ≤ lo then
      (spell rest).map (Char.ofNat (0x10000 + (hi - 0xD800) * 0x400 + (lo - 0xDC00)) :: ·)
    else none
  | .surrogate _ :: _ => none
  | .stray :: _ => none

/-- The text of a string, unless one of its pieces stands for no character. -/
def content (ps : List Piece) : Option String :=
  (spell ps).map String.ofList

/-! ## Numerals -/

/-- The digits at the start, and what follows them. -/
def digits : List Symbol → List Char × List Symbol
  | .char c :: rest =>
    if c.isDigit then
      let (ds, rest') := digits rest
      (c :: ds, rest')
    else ([], .char c :: rest)
  | s => ([], s)

/-- The digits before the point: a zero alone, or digits that start with another one. -/
def wholePart (s : List Symbol) : Option (List Char × List Symbol) :=
  match digits s with
  | ([], _) => none
  | ('0' :: _ :: _, _) => none
  | (ds, rest) => some (ds, rest)

/-- A point and at least one digit, if there is a point. -/
def fractionPart : List Symbol → Option (Option (List Char) × List Symbol)
  | .char '.' :: rest =>
    match digits rest with
    | ([], _) => none
    | (ds, rest') => some (some ds, rest')
  | s => some (none, s)

/-- The digits of an exponent, of which there has to be one, with its sign. -/
def exponentDigits (negative : Bool) (s : List Symbol) :
    Option (Option (Bool × List Char) × List Symbol) :=
  match digits s with
  | ([], _) => none
  | (ds, rest) => some (some (negative, ds), rest)

/-- A letter, perhaps a sign, and at least one digit, if there is such a letter. -/
def exponentPart : List Symbol → Option (Option (Bool × List Char) × List Symbol)
  | .char c :: rest =>
    if c == 'e' || c == 'E' then
      match rest with
      | .char '-' :: rest' => exponentDigits true rest'
      | .char '+' :: rest' => exponentDigits false rest'
      | rest' => exponentDigits false rest'
    else some (none, .char c :: rest)
  | s => some (none, s)

/-- A numeral of which the sign has been read. -/
def unsigned (negative : Bool) (s : List Symbol) : Option (Numeral × List Symbol) := do
  let (whole, s) ← wholePart s
  let (fraction, s) ← fractionPart s
  let (exponent, s) ← exponentPart s
  pure ({ negative, whole, fraction, exponent }, s)

/-! ## Tokens -/

/-- The smallest parts of a text in JSON. -/
inductive Token where
  | openBrace
  | closeBrace
  | openBracket
  | closeBracket
  | colon
  | comma
  | scalar (s : Scalar)
  deriving Repr

/-- What follows a word at the start. -/
def dropWord : List Char → List Symbol → Option (List Symbol)
  | [], s => some s
  | c :: cs, .char d :: s => if c = d then dropWord cs s else none
  | _ :: _, _ => none

/-- The first token of a text that does not start with a blank. -/
def token : List Symbol → Option (Token × List Symbol)
  | .char c :: rest =>
    match c with
    | '{' => some (.openBrace, rest)
    | '}' => some (.closeBrace, rest)
    | '[' => some (.openBracket, rest)
    | ']' => some (.closeBracket, rest)
    | ':' => some (.colon, rest)
    | ',' => some (.comma, rest)
    | '"' => (pieces rest).map fun (ps, rest') => (.scalar (.string (content ps)), rest')
    | 'n' => (dropWord "ull".toList rest).map (Token.scalar .null, ·)
    | 't' => (dropWord "rue".toList rest).map (Token.scalar (.bool true), ·)
    | 'f' => (dropWord "alse".toList rest).map (Token.scalar (.bool false), ·)
    | '-' => (unsigned true rest).map fun (n, rest') => (.scalar (.number n), rest')
    | c => (unsigned false (.char c :: rest)).map fun (n, rest') => (.scalar (.number n), rest')
  | _ => none

/-- The next token, and what follows it. -/
def next (s : List Symbol) : Option (Token × List Symbol) :=
  token (skipBlanks s)

/-! ## Values -/

mutual

/-- The first value of a text, and what follows it. Each call takes a token, so the length of the
    text is fuel enough. -/
def valueIn : Nat → List Symbol → Option (Json × List Symbol)
  | 0, _ => none
  | fuel + 1, s =>
    match next s with
    | some (.scalar x, rest) => some (.scalar x, rest)
    | some (.openBracket, rest) =>
      match next rest with
      | some (.closeBracket, rest') => some (.array [], rest')
      | _ => (elementsIn fuel rest).map fun (xs, rest') => (.array xs, rest')
    | some (.openBrace, rest) =>
      match next rest with
      | some (.closeBrace, rest') => some (.object [], rest')
      | _ => (membersIn fuel rest).map fun (ms, rest') => (.object ms, rest')
    | _ => none

/-- The elements of an array that is open, up to its end. -/
def elementsIn : Nat → List Symbol → Option (List Json × List Symbol)
  | 0, _ => none
  | fuel + 1, s =>
    match valueIn fuel s with
    | none => none
    | some (x, rest) =>
      match next rest with
      | some (.closeBracket, rest') => some ([x], rest')
      | some (.comma, rest') => (elementsIn fuel rest').map fun (xs, rest'') => (x :: xs, rest'')
      | _ => none

/-- The members of an object that is open, up to its end. -/
def membersIn : Nat → List Symbol → Option (List (Option String × Json) × List Symbol)
  | 0, _ => none
  | fuel + 1, s =>
    match next s with
    | some (.scalar (.string name), rest) =>
      match next rest with
      | some (.colon, rest') =>
        match valueIn fuel rest' with
        | none => none
        | some (x, rest'') =>
          match next rest'' with
          | some (.closeBrace, rest''') => some ([(name, x)], rest''')
          | some (.comma, rest''') =>
            (membersIn fuel rest''').map fun (ms, rest4) => ((name, x) :: ms, rest4)
          | _ => none
      | _ => none
    | _ => none

end

/-- The value with which a text starts, and what follows it. -/
def value (s : List Symbol) : Option (Json × List Symbol) :=
  valueIn (2 * s.length + 1) s

/-- Nothing but blanks is left. -/
def isEnd (s : List Symbol) : Bool :=
  (skipBlanks s).isEmpty

/-- The one value that a text is. -/
def read? (s : List Symbol) : Option Json :=
  match value s with
  | some (j, rest) => if isEnd rest then some j else none
  | none => none

end Roster.Json
