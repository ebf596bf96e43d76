import Roster.Storage.Disk

/-!
# The form of a record in a file

A record holds its key and its value. In a file stands the number of octets of the key in decimal
digits, a new line, the key, and the value, so that the value may be any octets.

This form is the library's own. It stands in for the compressed binary records of an existing store,
which it can neither read nor write, and only the program itself (`Main`) uses it: everywhere else a
file that holds a record is a `Node`, whatever its octets are.
-/

namespace Roster.Codec

/-- The octets of a record. -/
def encode (key : String) (value : ByteArray) : ByteArray :=
  (toString key.utf8ByteSize ++ "\n" ++ key).toUTF8 ++ value

/-- The octet that ends the line with the length. -/
def newLine : UInt8 := 10

/-- The value of a decimal digit. -/
def digit? (octet : UInt8) : Option Nat :=
  if 48 ≤ octet ∧ octet ≤ 57 then some (octet.toNat - 48) else none

/-- The number that starts a record, and what follows its line. -/
def keyLength : Nat → List UInt8 → Option (Nat × List UInt8)
  | _, [] => none
  | n, octet :: rest =>
    if octet = newLine then some (n, rest)
    else (digit? octet).bind fun d => keyLength (n * 10 + d) rest

/-- The record that octets hold, if they hold one. -/
def decode? (octets : ByteArray) : Option (String × ByteArray) := do
  let (size, rest) ← keyLength 0 octets.data.toList
  let key ← String.fromUTF8? ⟨(rest.take size).toArray⟩
  if rest.length < size then none else some (key, ⟨(rest.drop size).toArray⟩)

/-- What a file with some octets is to a folder of records. -/
def nodeOf (octets : ByteArray) : Node :=
  match decode? octets with
  | some (key, value) => .record key value
  | none => .other

end Roster.Codec
