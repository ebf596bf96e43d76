import Roster.Query.Assembler
import Roster.Rehearsal.Faults
import Roster.Service.Ticker
import Roster.Service.Worker
import Roster.Sync.RateTable

/-!
# The state of a rehearsal

A rehearsal runs the whole service in a time of its own, which passes only where something takes
time. Its state holds the service, what surrounds it, and what is under way: the cycle that runs,
with the time at which its current operation is done, and the worker with its ticker. Times are in
milliseconds from the start; the clock on the wall stands still.
-/

namespace Roster

/-! ## The source -/

/-- How the source of rows behaves. -/
inductive SourceMode where
  | whole
  /-- fails after all its retries -/
  | retries
  /-- has fewer rows than it tells -/
  | incomplete
  /-- never answers -/
  | hang
  deriving DecidableEq, Repr

/-- The behaviour with a name. -/
def SourceMode.ofName? : String → Option SourceMode
  | "ok" => some .whole
  | "retries" => some .retries
  | "incomplete" => some .incomplete
  | "hang" => some .hang
  | _ => none

/-- Where rows come from. -/
structure Source where
  rows : List Row
  mode : SourceMode := .whole
  delay : Nat := 0
  /-- the number of fetches so far -/
  fetches : Nat := 0

namespace Source

/-- How long a fetch takes, if it ever ends. -/
def duration? (s : Source) : Option Nat :=
  if s.mode = .hang then none else some s.delay

/-- What a fetch brings when it ends. -/
def answer (s : Source) : Except FetchError (List Row) :=
  match s.mode with
  | .whole | .hang => .ok s.rows
  | .retries => .error (.retriesExceeded Analytics.maxRetries)
  | .incomplete => .error (.incomplete 3 1)

end Source

/-! ## What is under way -/

/-- Who waits for a cycle. -/
inductive Owner where
  | caller (number : Nat)
  | worker
  deriving DecidableEq, Repr

/-- A cycle that runs. -/
structure Underway where
  owner : Owner
  /-- when its current operation is done, if it ever is -/
  due : Option Nat
  deadline : Nat
  deriving DecidableEq, Repr

namespace Underway

/-- The current operation is done before the deadline. -/
def completes (u : Underway) : Bool :=
  u.due.any (· ≤ u.deadline)

/-- When something happens to the cycle next. -/
def time (u : Underway) : Nat :=
  match u.due with
  | some due => min due u.deadline
  | none => u.deadline

end Underway

/-- What keeps the table up to date by itself. -/
structure Service where
  worker : Worker := {}
  ticker : Ticker

/-! ## The state -/

/-- A process and everything around it, in a time of its own. -/
structure Rehearsal where
  /-- the time that has passed -/
  clock : Nat := 0
  /-- the time of day, which stands still -/
  wall : Instant
  table : RateTable
  source : Source
  faults : Faults := {}
  underway : Option Underway := none
  service : Option Service := none
  /-- how long readers wait for the cache -/
  cacheTimeout : Nat
  assembler : Option Assembler := none
  /-- of every query that was begun by hand, whether it is still held -/
  guards : List Bool := []
  /-- the token in the latest answer that had one -/
  lastToken : Option String := none
  /-- what callers have been told and have not taken yet -/
  answers : Answers := []

namespace Rehearsal

/-- How many milliseconds a cycle may take. -/
def cycleTimeout (r : Rehearsal) : Nat :=
  r.table.synchronizer.timeout.nanos / 1000000

/-- Keeps answers until somebody asks for them. -/
def tell (r : Rehearsal) (answers : Answers) : Rehearsal :=
  { r with answers := r.answers ++ answers }

/-- The answer for a caller, if there is one yet. -/
def answerFor? (r : Rehearsal) (caller : Nat) : Option CycleResult :=
  r.answers.lookup caller

/-- Changes the worker and tells callers what it has for them. -/
def withWorker (r : Rehearsal) (f : Worker → Answers × Worker) : Rehearsal :=
  match r.service with
  | none => r
  | some s =>
    let (answers, worker) := f s.worker
    { r with service := some { s with worker } }.tell answers

end Rehearsal

end Roster
