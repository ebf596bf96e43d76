import Roster.Read.Reader
import Roster.Sync.RateTable

/-!
# Readers of a table at rest

How a reader reaches the backends of a table that nobody changes meanwhile, and
whose backends answer.
-/

namespace Roster.RateTable

/-- What a cache in order says of a key. -/
def askCache (t : RateTable) (key : String) : CacheAnswer :=
  match t.backends.cache.get? key with
  | some value => .hit value
  | none => .miss

/-- The way of readers to the backends of a table at rest. -/
def access : Access (StateM RateTable) where
  cache key := do pure ((← get).askCache key)
  store key := do pure ((← get).backends.get .store key)
  record f := modify fun t => { t with ledger := f t.ledger }

end Roster.RateTable
