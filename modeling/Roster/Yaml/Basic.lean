import Roster.Data.Tree
import Roster.Decimal.Number

/-!
# YAML documents

A YAML scalar is a text and the way it was written. Whether the text is a number, a truth value or
nothing at all depends on what it is read as: asked for a text, every scalar gives it, and asked for
anything else, only one that was written without quotes does. Where nobody asks, a scalar is
*resolved*: without quotes it is null, a truth value, a number or a text, in this order; with
quotes it is always a text.
-/

namespace Roster.Yaml

/-- A text of the document, which may stand for something else if it is plain. -/
structure Scalar where
  text : String
  /-- whether it was written without quotes -/
  plain : Bool
  deriving DecidableEq, Repr, Inhabited

/-- A document, whose plain scalars have not been resolved yet. -/
abbrev Document := Tree Scalar

/-- What stands where nothing is written. -/
def Scalar.blank : Scalar :=
  ⟨"", true⟩

/-! ## What plain texts may be -/

/-- The texts that stand for nothing. -/
def isNull (text : String) : Bool :=
  text ∈ ["", "~", "null", "Null", "NULL"]

/-- The truth value that a text stands for. -/
def bool? (text : String) : Option Bool :=
  if text ∈ ["true", "True", "TRUE"] then some true
  else if text ∈ ["false", "False", "FALSE"] then some false
  else none

/-- The value of a digit, the letters counted on from nine. -/
def digitValue? (c : Char) : Option Nat :=
  if c.isDigit then some (c.toNat - '0'.toNat)
  else if 'a' ≤ c ∧ c ≤ 'f' then some (c.toNat - 'a'.toNat + 10)
  else if 'A' ≤ c ∧ c ≤ 'F' then some (c.toNat - 'A'.toNat + 10)
  else none

/-- The number that digits spell in a base; there must be at least one. -/
def numberIn (base : Nat) (ds : List Char) : Option Nat :=
  if ds.isEmpty then none
  else
    ds.foldlM (fun n d => do
      let v ← digitValue? d
      if v < base then some (n * base + v) else none) 0

/-- Digits that start with a needless zero are no number. -/
def isPadded (ds : List Char) : Bool :=
  match ds with
  | '0' :: d :: rest => (d :: rest).all Char.isDigit
  | _ => false

/-- The number that digits stand for, in one of four bases. -/
def magnitude? (cs : List Char) : Option Nat :=
  match cs with
  | '0' :: 'x' :: ds => numberIn 16 ds
  | '0' :: 'o' :: ds => numberIn 8 ds
  | '0' :: 'b' :: ds => numberIn 2 ds
  | ds => if isPadded ds then none else numberIn 10 ds

/-- The number that a plain text stands for if it has no minus sign. -/
def natural? (text : String) : Option Nat :=
  match text.toList with
  | '+' :: cs => magnitude? cs
  | cs => magnitude? cs

/-- The integer that a text stands for. -/
def integer? (text : String) : Option Int :=
  match text.toList with
  | '-' :: cs => (magnitude? cs).map fun n => -(n : Int)
  | _ => (natural? text).map Int.ofNat

/-- The double that a plain text stands for: a finite one in digits, or one of the names of those
    that are not finite. -/
def float? (text : String) : Option Float :=
  if text ∈ [".inf", ".Inf", ".INF", "+.inf", "+.Inf", "+.INF"] then some (1.0 / 0.0)
  else if text ∈ ["-.inf", "-.Inf", "-.INF"] then some (-1.0 / 0.0)
  else if text ∈ [".nan", ".NaN", ".NAN"] then some (0.0 / 0.0)
  else (Decimal.read? text).filter Float.isFinite

/-- Scalars that are read as what the reader asks for. -/
instance : ReadScalar Scalar where
  isNull s := s.plain && isNull s.text
  isBlank s := s == .blank
  text? s := some s.text
  bool? s := if s.plain then bool? s.text else none
  int? s := if s.plain then (natural? s.text).map Int.ofNat else none
  float? s := if s.plain then float? s.text else none
  arraysAreRecords := false

/-! ## Resolution -/

/-- What a plain scalar stands for. -/
inductive Resolved where
  | null
  | bool (b : Bool)
  | integer (n : Int)
  | float (x : Float)
  | text (s : String)
  deriving Inhabited

/-- What follows the sign, if there is one. -/
def withoutSign (cs : List Char) : List Char :=
  match cs with
  | '+' :: r => r
  | '-' :: r => r
  | r => r

/-- A text that may stand for a double. -/
def resolveFloat (text : String) : Resolved :=
  if isPadded (withoutSign text.toList) then .text text
  else
    match float? text with
    | some x => .float x
    | none => .text text

/-- What a plain text is. An integer that needs more than 64 bits, but not more than 128, cannot be
    kept; one that needs still more is a double. -/
def resolvePlain? (text : String) : Option Resolved :=
  if isNull text then some .null
  else
    match bool? text with
    | some b => some (.bool b)
    | none =>
      match integer? text with
      | some n =>
        if -Nat.pow 2 63 ≤ n ∧ n < Nat.pow 2 64 then some (.integer n)
        else if -Nat.pow 2 127 ≤ n ∧ n < Nat.pow 2 128 then none
        else some (resolveFloat text)
      | none => some (resolveFloat text)

instance : Settle Scalar Resolved where
  settle? s := if s.plain then resolvePlain? s.text else some (.text s.text)

/-- Scalars that have been resolved are read as what they are; any number may be read as a
    double. -/
instance : ReadScalar Resolved where
  isNull s := match s with
    | .null => true
    | _ => false
  isBlank _ := false
  text? s := match s with
    | .text t => some t
    | _ => none
  bool? s := match s with
    | .bool b => some b
    | _ => none
  int? s := match s with
    | .integer n => some n
    | _ => none
  float? s := match s with
    | .integer n => some (Decimal.Number.ofInt n).toFloat
    | .float x => some x
    | _ => none
  arraysAreRecords := true

end Roster.Yaml
