import Roster.Analytics.Fetch
import Roster.Metrics
import Roster.Time.Duration

/-!
# Reports of cycles

A cycle brings the table up to date: it fetches the rows, compares them with what was published, and
publishes. This is what can be seen of it: the phase that it is in, and what it came to.
-/

namespace Roster

/-- What the synchronizer shows of itself. -/
inductive SyncState where
  | idle
  | fetching
  | diffing
  | publishing
  /-- the last cycle failed -/
  | failed
  deriving DecidableEq, Repr

/-- The name of a state. -/
def SyncState.label : SyncState → String
  | .idle => "idle"
  | .fetching => "fetching"
  | .diffing => "diffing"
  | .publishing => "publishing"
  | .failed => "failed"

/-- What a cycle has done. -/
structure CycleReport where
  /-- the number of the cycle -/
  cycle : Nat
  rowsFetched : Nat
  /-- malformed rows -/
  rejected : Nat
  /-- entries that were not published before -/
  new : Nat
  /-- entries that were published with other content -/
  changed : Nat
  unchanged : Nat
  /-- keys that were removed from both backends -/
  evicted : Nat
  deriving DecidableEq, Repr

namespace CycleReport

/-- The number of entries that are published. -/
def entries (r : CycleReport) : Nat :=
  r.new + r.changed + r.unchanged

end CycleReport

/-- Why a cycle has failed. -/
inductive SyncError where
  | fetch (error : FetchError)
  | timeout (deadline : Duration)
  /-- another cycle was running -/
  | concurrent
  /-- some of the attempted operations failed, those on these keys -/
  | partialPublish (failed : List String) (attempted : Nat)
  | workerStopped

namespace SyncError

/-- What is said about a cycle that failed. -/
def message : SyncError → String
  | .fetch error => "fetch failed: " ++ error.message
  | .timeout deadline => "cycle exceeded deadline of " ++ deadline.text
  | .concurrent => "another synchronization cycle is in progress"
  | .partialPublish failed attempted =>
    "publish partially failed: " ++ toString failed.length ++ " of " ++ toString attempted ++
      " operations failed"
  | .workerStopped => "synchronizer worker has stopped"

/-- Under which reason a failure is counted. -/
def reason : SyncError → FailureReason
  | .fetch _ => .fetch
  | .timeout _ => .timeout
  | .concurrent => .concurrent
  | .partialPublish .. => .partialPublish
  | .workerStopped => .workerStopped

end SyncError

/-- What a cycle comes to. -/
abbrev CycleResult := Except SyncError CycleReport

end Roster
