import Roster.Http.Status
import Roster.Json.Reader
import Roster.Table.Row
import Roster.Url.Parser

/-!
# Fetching the analytics result

The rows of the table come from a backend that answers requests over HTTP. A backend that is busy or
out of order is asked again, a few times; any other answer decides. The result is whole or there is
none: if the backend says how many rows there are, so many must have come.
-/

namespace Roster

/-- Why there are no rows. -/
inductive FetchError where
  /-- the request got no answer, for a reason that the transport gives -/
  | transport (reason : String)
  /-- the answer holds no rows -/
  | undecodable
  | invalidUrl (error : Url.ParseError)
  | unexpectedStatus (status : Nat)
  | retriesExceeded (retries : Nat)
  | incomplete (expected received : Nat)
  deriving DecidableEq, Repr

/-- What is said about an error. -/
def FetchError.message : FetchError → String
  | .transport reason => "analytics request failed: " ++ reason
  | .undecodable => "analytics request failed: error decoding response body"
  | .invalidUrl error => "invalid URL: " ++ error.message
  | .unexpectedStatus status => "analytics backend returned " ++ Http.statusText status
  | .retriesExceeded retries =>
    "analytics backend unavailable after " ++ toString retries ++ " retries"
  | .incomplete expected received =>
    "analytics result incomplete: expected " ++ toString expected ++ " rows, received " ++
      toString received

namespace Analytics

/-- What comes of one request. -/
inductive Exchange where
  /-- no answer, for a reason -/
  | lost (reason : String)
  | answered (status : Nat) (body : ByteArray)

/-- The content of an answer: rows, and how many there are if that is told. -/
structure Content where
  rows : List Row
  total : Option Nat

/-- Reads the content of an answer. One that is written as an array has to have both parts. -/
def Content.ofTree? (t : Json) : Option Content := do
  match ← t.record? ["rows", "total_rows"] with
  | [rows, total] =>
    if let (.array _, none) := (t, total) then none
    pure {
      rows := ← Tree.required (Tree.list? Row.ofTree?) rows
      total := ← Tree.optional (Tree.natBelow? 64) total }
  | _ => none

/-- The rows of an answer that was sent with success. -/
def rowsOf (body : ByteArray) : Except FetchError (List Row) :=
  match (Json.read? (Json.symbols body)).bind Content.ofTree? with
  | none => .error .undecodable
  | some { rows, total := none } => .ok rows
  | some { rows, total := some total } =>
    if total = rows.length then .ok rows else .error (.incomplete total rows.length)

/-- The codes after which the backend is asked again. -/
def passingCodes : List Nat :=
  [429, 500, 502, 503, 504]

/-- How often a request is made again. -/
def maxRetries : Nat := 3

/-- What an exchange decides; none if it is worth another request. -/
def decide? : Exchange → Option (Except FetchError (List Row))
  | .lost reason => some (.error (.transport reason))
  | .answered status body =>
    if Http.isSuccess status then some (rowsOf body)
    else if status ∈ passingCodes then none
    else some (.error (.unexpectedStatus status))

/-- Asks until an answer decides or `left` further requests have been made, where `made` have been
    made before. Gives the result and the number of all requests. -/
def ask (exchange : Nat → Exchange) : Nat → Nat → Except FetchError (List Row) × Nat
  | made, 0 =>
    ((decide? (exchange made)).getD (.error (.retriesExceeded made)), made + 1)
  | made, left + 1 =>
    match decide? (exchange made) with
    | some result => (result, made + 1)
    | none => ask exchange (made + 1) left

/-- The analytics result, and the number of requests, from a backend whose answers are
    `exchange`. -/
def fetch (exchange : Nat → Exchange) : Except FetchError (List Row) × Nat :=
  ask exchange 0 maxRetries

/-- The address that rows are fetched from, if the text is one. -/
def sourceUrl (text : String) : Except FetchError Url :=
  (Url.parse text).mapError .invalidUrl

end Analytics

end Roster
