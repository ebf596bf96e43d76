import Roster.Json.Basic

/-!
# Writing JSON

The compact form: no blanks, members in their order, and in strings an escape only for the quote,
the backslash and the control characters below the blank.
-/

namespace Roster.Json

open Decimal

/-- The lower-case hexadecimal digit of a number below sixteen. -/
def hexDigit (n : Nat) : Char :=
  Nat.digitChar n

/-- How a character is written in a string. -/
def escaped (c : Char) : List Char :=
  match c with
  | '"' => ['\\', '"']
  | '\\' => ['\\', '\\']
  | '\n' => ['\\', 'n']
  | '\r' => ['\\', 'r']
  | '\t' => ['\\', 't']
  | c =>
    if c.toNat = 8 then ['\\', 'b']
    else if c.toNat = 12 then ['\\', 'f']
    else if c.toNat < 32 then
      ['\\', 'u', '0', '0', hexDigit (c.toNat / 16), hexDigit (c.toNat % 16)]
    else [c]

/-- A string between its marks. -/
def quoted (s : String) : List Char :=
  '"' :: (s.toList.flatMap escaped ++ ['"'])

/-- The compact form of a scalar. Content that is no text is written as an empty string. -/
def Scalar.chars : Scalar → List Char
  | .null => "null".toList
  | .bool true => "true".toList
  | .bool false => "false".toList
  | .number n => n.chars
  | .string content => quoted (content.getD "")

mutual

/-- A value as it is written, without any blanks. -/
def chars : Json → List Char
  | .scalar s => s.chars
  | .array elements => '[' :: elementChars elements
  | .object members => '{' :: memberChars members

/-- Elements, the separators between them and the closing bracket. -/
def elementChars : List Json → List Char
  | [] => [']']
  | [x] => chars x ++ [']']
  | x :: y :: rest => chars x ++ ',' :: elementChars (y :: rest)

/-- Members, the separators between them and the closing brace. -/
def memberChars : List (Option String × Json) → List Char
  | [] => ['}']
  | [(name, x)] => quoted (name.getD "") ++ ':' :: (chars x ++ ['}'])
  | (name, x) :: m :: rest =>
    quoted (name.getD "") ++ ':' :: (chars x ++ ',' :: memberChars (m :: rest))

end

/-- The text of a value. -/
def write (j : Json) : String :=
  String.ofList (chars j)

end Roster.Json
