import Roster.Table.Manifest
import Roster.Table.Snapshot

/-!
# Comparing snapshots

What a new snapshot changes against the one that was published before, and which keys have to go:
all that may be in a backend, save the reserved name and the keys of the new snapshot.
-/

namespace Roster

/-- What becomes of an entry when a snapshot replaces the published one. -/
inductive Change where
  | new
  | changed
  | unchanged
  deriving DecidableEq, Repr

/-- The number of entries of each kind, and the keys to remove in the order of their texts. -/
structure Diff where
  new : Nat
  changed : Nat
  unchanged : Nat
  evict : List String
  deriving DecidableEq, Repr

namespace Diff

/-- How an entry stands to what is published. Only its content counts, and not its form. -/
def changeOf (published : Snapshot) (e : Entry) : Change :=
  match published.get? e.key with
  | none => .new
  | some before => if before.sameContent e then .unchanged else .changed

/-- The number of entries of which the same becomes. -/
def count (published snapshot : Snapshot) (change : Change) : Nat :=
  snapshot.entries.countP fun e => changeOf published e = change

/-- Texts in order, none of them twice. -/
def sorted (texts : List String) : List String :=
  texts.eraseDups.mergeSort fun a b => decide (a ≤ b)

/-- The keys that have to go, of those that may be there. -/
def toEvict (snapshot : Snapshot) (present : List String) : List String :=
  sorted (present.filter fun key => key ≠ Manifest.name && !snapshot.names.contains key)

/-- Compares a snapshot with the published one, where the keys in `present` may be in a backend. -/
def compare (published snapshot : Snapshot) (present : List String) : Diff where
  new := count published snapshot .new
  changed := count published snapshot .changed
  unchanged := count published snapshot .unchanged
  evict := toEvict snapshot present

end Diff

end Roster
