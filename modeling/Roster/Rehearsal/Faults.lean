import Roster.Storage.Backends

/-!
# Faults

What stands between the service and its backends in a rehearsal: operations that are refused, and
operations that take time.
-/

namespace Roster

/-- For which keys an operation is refused. -/
inductive Refusal where
  | always
  | keys (keys : List String)
  deriving DecidableEq, Repr

/-- An operation of a backend. -/
abbrev Usage := Backend × Operation

/-- The operations by their names. -/
def Usage.named : List (String × Usage) :=
  [("store_put", (.store, .put)), ("store_get", (.store, .get)),
    ("store_delete", (.store, .delete)), ("store_keys", (.store, .keys)),
    ("cache_get", (.cache, .get)), ("cache_set", (.cache, .put)),
    ("cache_delete", (.cache, .delete))]

/-- What is wrong with the backends. -/
structure Faults where
  refusals : List (Usage × Refusal) := []
  /-- how many milliseconds operations take -/
  delays : List (Usage × Nat) := []
  deriving DecidableEq, Repr

namespace Faults

/-- How long an operation takes. -/
def delay (f : Faults) (u : Usage) : Nat :=
  (f.delays.lookup u).getD 0

/-- An operation on a key is refused. -/
def refuses (f : Faults) (u : Usage) (key : String) : Bool :=
  match f.refusals.lookup u with
  | none => false
  | some .always => true
  | some (.keys keys) => keys.contains key

/-- How an operation on a key goes. -/
def verdict (f : Faults) (u : Usage) (key : String) : Verdict :=
  if f.refuses u key then .refused (.unavailable ("injected failure for " ++ key)) else .passed

end Faults

end Roster
