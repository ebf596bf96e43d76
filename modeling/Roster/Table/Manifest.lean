import Roster.Json.Reader
import Roster.Json.Writer

/-!
# Manifests

The manifest lists the keys of the snapshot that is published, with the number of the cycle that
published it and the time in seconds since 1970. It is kept under a reserved name that is no key.
-/

namespace Roster

/-- Which keys have been published, by which cycle and when. -/
structure Manifest where
  cycle : Nat
  publishedAt : Nat
  keys : List String
  deriving DecidableEq, Repr

namespace Manifest

/-- The reserved name under which both backends hold the manifest. -/
def name : String := "__manifest__"

/-- A manifest in JSON. -/
def toJson (m : Manifest) : Json :=
  .fields [("cycle", .nat m.cycle), ("published_at", .nat m.publishedAt), ("keys", .texts m.keys)]

/-- A manifest from a tree. -/
def ofTree? {σ : Type} [ReadScalar σ] (t : Tree σ) : Option Manifest := do
  match ← t.record? ["cycle", "published_at", "keys"] with
  | [cycle, publishedAt, keys] =>
    pure {
      cycle := ← Tree.required (Tree.natBelow? 64) cycle
      publishedAt := ← Tree.required (Tree.natBelow? 64) publishedAt
      keys := ← Tree.required (Tree.list? Tree.text?) keys }
  | _ => none

/-- The octets of a manifest in a backend. -/
def encode (m : Manifest) : ByteArray :=
  (Json.write m.toJson).toUTF8

/-- The manifest that octets hold. -/
def decode? (octets : ByteArray) : Option Manifest :=
  (Json.read? (Json.symbols octets)).bind ofTree?

end Manifest

end Roster
