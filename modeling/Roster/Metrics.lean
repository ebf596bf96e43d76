import Roster.Query.Priority

/-!
# Metrics

The measurements that the two halves of the service report: what each metric is called and means,
and the ledger in which their values are kept. Counters add up, gauges hold the last value, and of a
histogram only the number of records is kept.
-/

namespace Roster

/-! ## Descriptions -/

/-- How a metric is kept. -/
inductive MetricKind where
  | counter
  | gauge
  | histogram
  deriving DecidableEq, Repr

/-- The name of a kind. -/
def MetricKind.label : MetricKind → String
  | .counter => "Counter"
  | .gauge => "Gauge"
  | .histogram => "Histogram"

/-- A metric as it is announced. -/
structure Metric where
  name : String
  kind : MetricKind
  description : String

namespace Metric

def syncDuration : Metric where
  name := "rate_table.sync.duration"
  kind := .histogram
  description := "Time to complete a synchronization cycle in seconds"

def syncEntries : Metric where
  name := "rate_table.sync.entries"
  kind := .gauge
  description := "Number of entries in the last published snapshot"

def syncEvictions : Metric where
  name := "rate_table.sync.evictions"
  kind := .counter
  description := "Number of entries evicted from the store and cache"

def syncRejectedRows : Metric where
  name := "rate_table.sync.rejected_rows"
  kind := .counter
  description := "Number of malformed analytics rows rejected"

def syncFailures : Metric where
  name := "rate_table.sync.failures"
  kind := .counter
  description := "Number of failed synchronization cycles, tagged by reason"

def cacheHit : Metric where
  name := "rate_table.cache.hit"
  kind := .counter
  description := "Number of reads served by the fast cache"

def cacheMiss : Metric where
  name := "rate_table.cache.miss"
  kind := .counter
  description := "Number of reads that missed the fast cache"

def cacheFallback : Metric where
  name := "rate_table.cache.fallback"
  kind := .counter
  description := "Number of reads that fell back to the store after a cache error or timeout"

def queries : Metric where
  name := "locate.queries"
  kind := .counter
  description := "Number of queries, tagged by priority class"

def queriesThrottled : Metric where
  name := "locate.queries.throttled"
  kind := .counter
  description := "Number of queries answered without targets due to load, tagged by reason"

def queryErrors : Metric where
  name := "locate.queries.errors"
  kind := .counter
  description := "Number of queries answered with an error, tagged by status"

def queryDuration : Metric where
  name := "locate.queries.duration"
  kind := .histogram
  description := "Time to assemble a query result in seconds"

def queriesInFlight : Metric where
  name := "locate.queries.in_flight"
  kind := .gauge
  description := "Number of queries being processed"

/-- The metrics of the synchronization and of the readers. -/
def ofTable : List Metric :=
  [syncDuration, syncEntries, syncEvictions, syncRejectedRows, syncFailures, cacheHit, cacheMiss,
    cacheFallback]

/-- The metrics of the queries. -/
def ofQueries : List Metric :=
  [queries, queriesThrottled, queryErrors, queryDuration, queriesInFlight]

end Metric

/-! ## The ledger -/

/-- Why a cycle ended with an error. -/
inductive FailureReason where
  | fetch
  | timeout
  | concurrent
  | partialPublish
  | workerStopped
  deriving DecidableEq, Repr

/-- The name of a reason. -/
def FailureReason.label : FailureReason → String
  | .fetch => "fetch"
  | .timeout => "timeout"
  | .concurrent => "concurrent"
  | .partialPublish => "partial_publish"
  | .workerStopped => "worker_stopped"

/-- Why a query got no targets although it was well formed. -/
inductive ThrottleReason where
  | capacityExhausted
  | clientRateExceeded
  deriving DecidableEq, Repr

/-- The name of what forbids a query. -/
def ThrottleReason.label : ThrottleReason → String
  | .capacityExhausted => "capacity_exhausted"
  | .clientRateExceeded => "client_rate_exceeded"

/-- What is counted, label by label. -/
inductive Counter where
  | evictions
  | rejectedRows
  | failures (reason : FailureReason)
  | cacheHit
  | cacheMiss
  | cacheFallback
  | queries (priority : Priority)
  | throttled (reason : ThrottleReason)
  | queryErrors (status : Nat)
  deriving DecidableEq, Repr

/-- The name of a counter that has a label. -/
def labelled (m : Metric) (label value : String) : String :=
  m.name ++ "|" ++ label ++ "=" ++ value

/-- The name under which a counter is shown. -/
def Counter.name : Counter → String
  | .evictions => Metric.syncEvictions.name
  | .rejectedRows => Metric.syncRejectedRows.name
  | .failures reason => labelled .syncFailures "reason" reason.label
  | .cacheHit => Metric.cacheHit.name
  | .cacheMiss => Metric.cacheMiss.name
  | .cacheFallback => Metric.cacheFallback.name
  | .queries priority => labelled .queries "class" priority.label
  | .throttled reason => labelled .queriesThrottled "reason" reason.label
  | .queryErrors status => labelled .queryErrors "status" (toString status)

/-- Everything that has been counted, from the beginning. -/
structure Ledger where
  counters : List (Counter × Nat) := []
  /-- the last value of the gauge of published entries -/
  entries : Option Nat := none
  /-- the last value of the gauge of queries in flight -/
  inFlight : Option Nat := none
  /-- the number of cycles whose duration was recorded -/
  cycles : Nat := 0
  /-- the number of queries whose duration was recorded -/
  queries : Nat := 0

namespace Ledger

/-- What a counter shows. -/
def total (l : Ledger) (c : Counter) : Nat :=
  (l.counters.lookup c).getD 0

/-- Adds to a counter in its place, or behind all others if it is new. -/
def addTo (c : Counter) (n : Nat) : List (Counter × Nat) → List (Counter × Nat)
  | [] => [(c, n)]
  | (d, m) :: rest => if d = c then (d, m + n) :: rest else (d, m) :: addTo c n rest

/-- Adds a number to a counter. -/
def add (l : Ledger) (c : Counter) (n : Nat) : Ledger :=
  { l with counters := addTo c n l.counters }

/-- Adds one to a counter. -/
def count (l : Ledger) (c : Counter) : Ledger :=
  l.add c 1

/-! ### Reports -/

/-- The counters that are not zero, with their names. -/
def counterReport (l : Ledger) : List (String × Nat) :=
  (l.counters.filter fun c => c.2 ≠ 0).map fun (c, n) => (c.name, n)

/-- The gauges that have been set, with their names. -/
def gaugeReport (l : Ledger) : List (String × Nat) :=
  (l.entries.map fun n => (Metric.syncEntries.name, n)).toList ++
    (l.inFlight.map fun n => (Metric.queriesInFlight.name, n)).toList

/-- The histograms that have records, by name, and the numbers of their records. -/
def histogramReport (l : Ledger) : List (String × Nat) :=
  [(Metric.syncDuration.name, l.cycles), (Metric.queryDuration.name, l.queries)].filter fun h =>
    h.2 ≠ 0

end Ledger

end Roster
