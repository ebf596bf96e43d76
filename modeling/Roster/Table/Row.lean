import Roster.Json.Basic
import Roster.Table.Key

/-!
# Rows of the analytics result

A row as the analytical query delivers it. Nothing about it is checked yet: coordinates are texts
that may be empty, and the address family is any text.
-/

namespace Roster

/-- What the source tells of a target. Nothing has been checked yet. -/
structure Row where
  family : String := ""
  format : String := ""
  latitude : String := ""
  longitude : String := ""
  metro : String := ""
  policy : String := ""
  path : String
  probability : Float
  requester : String := ""
  requestsPerDay : Int
  target : String

namespace Row

/-- The key that a row has if nothing is wrong with it. -/
def key (r : Row) : Key :=
  ⟨r.requester, r.path, r.policy, r.target⟩

/-- The names of the fields in the order in which they are written. -/
def fieldNames : List String :=
  ["af", "format", "latitude", "longitude", "metro", "policy", "path", "probability",
    "requester_ip", "requests_per_day", "target_ip"]

/-- Reads a row. A text that is absent is empty; path, probability, requests per day and target must
    be there. -/
def ofTree? {σ : Type} [ReadScalar σ] (t : Tree σ) : Option Row := do
  match ← t.record? fieldNames with
  | [family, format, latitude, longitude, metro, policy, path, probability, requester, requests,
      target] =>
    let text (t : Option (Tree σ)) : Option String := Tree.withDefault "" Tree.text? t
    pure {
      family := ← text family
      format := ← text format
      latitude := ← text latitude
      longitude := ← text longitude
      metro := ← text metro
      policy := ← text policy
      path := ← Tree.required Tree.text? path
      probability := ← Tree.required Tree.float? probability
      requester := ← text requester
      requestsPerDay := ← Tree.required Tree.int64? requests
      target := ← Tree.required Tree.text? target }
  | _ => none

/-- A row in JSON. -/
def toJson (r : Row) : Json :=
  .fields [
    ("af", .text r.family), ("format", .text r.format), ("latitude", .text r.latitude),
    ("longitude", .text r.longitude), ("metro", .text r.metro), ("policy", .text r.policy),
    ("path", .text r.path), ("probability", .float r.probability),
    ("requester_ip", .text r.requester), ("requests_per_day", .int r.requestsPerDay),
    ("target_ip", .text r.target)]

end Row

end Roster
