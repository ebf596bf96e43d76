import Roster.Data.Tree
import Roster.Decimal.Number

/-!
# JSON values

The value that a JSON text stands for, as far as a reader may need it. Numbers are kept as
numerals, because whether one is an integer shows only in its writing, and a string whose escapes or
octets spell no text is kept as `none`: it is an error for whoever uses it and for nobody else.
-/

namespace Roster

open Decimal

/-- A value without parts. A string may have no text, if it was written with half a pair of
    units. -/
inductive Json.Scalar where
  | null
  | bool (b : Bool)
  | number (n : Numeral)
  | string (content : Option String)
  deriving Repr, DecidableEq, Inhabited

/-- A value in JSON. -/
abbrev Json := Tree Json.Scalar

namespace Json

/-- A scalar is read as what it is; any number may be read as a double. -/
instance : ReadScalar Scalar where
  isNull s := s == .null
  isBlank _ := false
  text? s := match s with
    | .string content => content
    | _ => none
  bool? s := match s with
    | .bool b => some b
    | _ => none
  int? s := match s with
    | .number n => n.toNumber?.bind Number.toInt?
    | _ => none
  float? s := match s with
    | .number n => n.toNumber?.map Number.toFloat
    | _ => none
  arraysAreRecords := true

/-- What a scalar is does not depend on what it is read as. -/
instance : Settle Scalar Scalar where
  settle? := some

/-- The value `null`. -/
def null : Json :=
  .scalar .null

/-- A truth value. -/
def bool (b : Bool) : Json :=
  .scalar (.bool b)

def number (n : Numeral) : Json :=
  .scalar (.number n)

/-- A string. -/
def text (s : String) : Json :=
  .scalar (.string (some s))

/-- A natural number in decimal digits. -/
def nat (n : Nat) : Json :=
  number (.ofNat n)

def int (n : Int) : Json :=
  number (.ofInt n)

/-- A double, with the fewest digits that lead back to it. -/
def float (x : Float) : Json :=
  number (.ofFloat .json x)

def list (elements : List Json) : Json :=
  .array elements

/-- An object with members in this order. -/
def fields (members : List (String × Json)) : Json :=
  .object (members.map fun (name, value) => (some name, value))

/-- An array of strings. -/
def texts (items : List String) : Json :=
  .array (items.map text)

end Json

end Roster
