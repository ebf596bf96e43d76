import Roster.Sync.Publication

/-!
# The synchronizer

Keeps the table up to date, in cycles of which at most one runs at a time. Between two cycles it
knows what it published last and every key that may be in a backend because of it: a key is known
from before it is first written until it has been removed from both backends.
-/

namespace Roster

/-- How far a cycle has come. -/
inductive Phase where
  /-- waits for the rows -/
  | fetching
  /-- waits for the keys of the store -/
  | diffing (snapshot : Snapshot) (rowsFetched rejected : Nat)
  | publishing (p : Publication)

/-- What is remembered from one cycle to the next, and the cycle that runs. -/
structure Synchronizer where
  /-- the time that a cycle may take -/
  timeout : Duration
  state : SyncState := .idle
  /-- the content of the last publication, the comparison for the next one -/
  published : Snapshot := .empty
  /-- the keys that may be in a backend -/
  known : List String := []
  /-- the number of cycles so far in 64 bits, which is the number of the last one -/
  cycles : UInt64 := 0
  /-- the cycle that runs, if one does -/
  running : Option Phase := none

namespace Synchronizer

/-- The number of entries in the last publication. -/
def publishedSize (s : Synchronizer) : Nat :=
  s.published.size

/-- Keys with others that are not among them. -/
def join (known added : List String) : List String :=
  known ++ added.filter fun key => !known.contains key

/-- A cycle begins. -/
def begin (s : Synchronizer) : Synchronizer :=
  { s with state := .fetching, cycles := s.cycles + 1, running := some .fetching }

/-- The rows are there, and the keys of the store are to be known next. -/
def diffing (s : Synchronizer) (rows : List Row) : Synchronizer :=
  let (snapshot, rejected) := Snapshot.ofRows rows
  { s with state := .diffing, running := some (.diffing snapshot rows.length rejected.length) }

/-- The keys of the store are there, or cannot be had and count as none. -/
def publishing (s : Synchronizer) (snapshot : Snapshot) (rowsFetched rejected : Nat)
    (stored : List String) : Synchronizer :=
  let diff := Diff.compare s.published snapshot (s.known ++ stored)
  { s with
    state := .publishing
    known := join s.known snapshot.names
    running := some (.publishing (.start snapshot rowsFetched rejected diff)) }

/-- All tasks of a publication are done. What was published is what was to be published, even if
    tasks failed, as the next cycle does them all again. -/
def conclude (s : Synchronizer) (p : Publication) : Synchronizer :=
  { s with published := p.snapshot, known := join p.snapshot.names p.notEvicted }

/-- The cycle is over. -/
def finish (s : Synchronizer) (result : CycleResult) : Synchronizer :=
  { s with running := none, state := if result.isOk then .idle else .failed }

end Synchronizer

end Roster
