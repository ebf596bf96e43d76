/-!
# Octets as symbols

JSON arrives as octets, and a document may hold octets that are no UTF-8 where nobody looks at them.
`symbols` reads a sequence of octets as characters as far as it can and keeps the others as they
are, so a reader can accept them in a place that is skipped and refuse them in a place that is used.
A text's own octets give exactly its characters.
-/

namespace Roster.Json

/-- A character, or an octet that is part of none. -/
inductive Symbol where
  | char (c : Char)
  | stray (octet : UInt8)
  deriving Repr, DecidableEq

/-- The characters of a text. -/
def ofText (text : String) : List Symbol :=
  text.toList.map .char

/-- The character that the first `n` octets encode, if they encode exactly one. -/
def charOfPrefix (octets : List UInt8) (n : Nat) : Option Char :=
  match String.fromUTF8? ⟨(octets.take n).toArray⟩ with
  | some s => if (octets.take n).length = n then
      match s.toList with
      | [c] => some c
      | _ => none
    else none
  | none => none

/-- Reads octets one character at a time; an octet with which no character starts stands alone. -/
def scan : Nat → List UInt8 → List Symbol
  | 0, _ => []
  | _, [] => []
  | fuel + 1, octet :: rest =>
    let found := [1, 2, 3, 4].findSome? fun n =>
      (charOfPrefix (octet :: rest) n).map fun c => (c, n)
    match found with
    | some (c, n) => .char c :: scan fuel (rest.drop (n - 1))
    | none => .stray octet :: scan fuel rest

/-- Octets as symbols: the characters of the text if they are one. -/
def symbols (octets : ByteArray) : List Symbol :=
  match String.fromUTF8? octets with
  | some text => ofText text
  | none => scan octets.size octets.data.toList

end Roster.Json
