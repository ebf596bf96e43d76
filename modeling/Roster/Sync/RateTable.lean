import Roster.Sync.Synchronizer

/-!
# The rate table

The two backends, the synchronizer that writes them, and the ledger in which both it and the readers
count. Everything that happens to a cycle is an `Event`, and `step` is what one event does: at most
one operation on one backend. So a list of events is a run, with whatever stands between the events
of one cycle. A cycle that is cut off is one whose events end early; a change that was on its way
then may still be carried out.
-/

namespace Roster

/-- The two backends with what keeps them up to date, and what has been counted. -/
structure RateTable where
  backends : Backends := {}
  synchronizer : Synchronizer
  ledger : Ledger := {}

/-- What happens to the running cycle, or to the one that is asked for. -/
inductive Event where
  /-- a cycle is asked for -/
  | call
  /-- the source has answered -/
  | fetched (answer : Except FetchError (List Row))
  /-- the store has been asked for its keys -/
  | listed (verdict : Verdict)
  /-- the next change of the publication has been asked for, at a time in seconds since 1970 -/
  | wrote (time : UInt64) (verdict : Verdict)
  /-- the deadline has passed; the change that was asked for at the given time, if one was, is still
      carried out -/
  | expired (onItsWay : Option UInt64)
  /-- whoever ran the cycle has given it up; a change that was on its way is still carried out -/
  | dropped (onItsWay : Option UInt64)

namespace RateTable

/-- The next change of the publication that is under way. -/
def nextWrite? (t : RateTable) (time : UInt64) : Option Write :=
  match t.synchronizer.running with
  | some (.publishing p) => p.next? t.synchronizer.cycles time
  | _ => none

/-- Counts the end of a cycle. -/
def recordEnd (l : Ledger) (result : CycleResult) : Ledger :=
  let l := { l with cycles := l.cycles + 1 }
  match result with
  | .ok report => { l with entries := some report.entries }
  | .error e => l.count (.failures e.reason)

/-- The cycle is over. -/
def finish (t : RateTable) (result : CycleResult) : Option CycleResult × RateTable :=
  (some result,
    { t with synchronizer := t.synchronizer.finish result, ledger := recordEnd t.ledger result })

/-- A cycle is asked for. Only one runs at a time. -/
def call (t : RateTable) : Option CycleResult × RateTable :=
  match t.synchronizer.running with
  | some _ => (some (.error .concurrent), t)
  | none => (none, { t with synchronizer := t.synchronizer.begin })

/-- The source has answered. -/
def fetched (t : RateTable) (answer : Except FetchError (List Row)) :
    Option CycleResult × RateTable :=
  match t.synchronizer.running with
  | some .fetching =>
    match answer with
    | .error e => t.finish (.error (.fetch e))
    | .ok rows =>
      (none, { t with
        synchronizer := t.synchronizer.diffing rows
        ledger := t.ledger.add .rejectedRows (Snapshot.ofRows rows).2.length })
  | _ => (none, t)

/-- The store has told its keys. If it could not, there are none as far as is known. -/
def listed (t : RateTable) (verdict : Verdict) : Option CycleResult × RateTable :=
  match t.synchronizer.running with
  | some (.diffing snapshot rowsFetched rejected) =>
    let stored := (t.backends.storeKeys verdict).toOption.getD []
    (none, { t with
      synchronizer := t.synchronizer.publishing snapshot rowsFetched rejected stored })
  | _ => (none, t)

/-- A publication goes on, or ends with its last task. -/
def proceed (t : RateTable) (p : Publication) : Option CycleResult × RateTable :=
  if p.tasks.isEmpty then
    let t := { t with
      synchronizer := t.synchronizer.conclude p
      ledger := t.ledger.add .evictions p.evicted }
    t.finish (p.result t.synchronizer.cycles)
  else (none, { t with synchronizer := { t.synchronizer with running := some (.publishing p) } })

/-- The next change of the publication has been asked for. -/
def wrote (t : RateTable) (time : UInt64) (verdict : Verdict) : Option CycleResult × RateTable :=
  match t.synchronizer.running with
  | some (.publishing p) =>
    match p.next? t.synchronizer.cycles time with
    | none => (none, t)
    | some w =>
      let (result, backends) := t.backends.write w verdict
      { t with backends }.proceed (p.advance w result.isOk)
  | _ => (none, t)

/-- The change that was asked for at the given time is carried out, though nobody
    waits for the answer. -/
def land (t : RateTable) (onItsWay : Option UInt64) : RateTable :=
  match onItsWay.bind t.nextWrite? with
  | none => t
  | some w => { t with backends := (t.backends.apply w).2 }

/-- The cycle has taken too long. -/
def expired (t : RateTable) : Option CycleResult × RateTable :=
  match t.synchronizer.running with
  | some _ => t.finish (.error (.timeout t.synchronizer.timeout))
  | none => (none, t)

/-- The running cycle is given up: nothing is told about it, and the state stays as it is. -/
def dropped (t : RateTable) : RateTable :=
  { t with synchronizer := { t.synchronizer with running := none } }

/-- What an event does, and what the cycle comes to if it ends with the event, or is refused. -/
def step (t : RateTable) : Event → Option CycleResult × RateTable
  | .call => t.call
  | .fetched answer => t.fetched answer
  | .listed verdict => t.listed verdict
  | .wrote time verdict => t.wrote time verdict
  | .expired onItsWay => (t.land onItsWay).expired
  | .dropped onItsWay => (none, (t.land onItsWay).dropped)

/-- What a list of events does, and what the cycles among them come to. -/
def run (t : RateTable) : List Event → List CycleResult × RateTable
  | [] => ([], t)
  | e :: rest =>
    let (result, t) := t.step e
    let (results, t) := t.run rest
    (result.toList ++ results, t)

/-! ## Cycles that nothing disturbs -/

/-- Carries out changes of the publication, at most `n`, none of which fails on the way. -/
def writeAll (t : RateTable) (time : UInt64) : Nat → Option CycleResult × RateTable
  | 0 => (none, t)
  | n + 1 =>
    match t.wrote time .passed with
    | (some result, t) => (some result, t)
    | (none, t) => writeAll t time n

/-- The number of changes that are left of the publication at most. -/
def changesLeft (t : RateTable) : Nat :=
  match t.synchronizer.running with
  | some (.publishing p) => 2 * p.tasks.length
  | _ => 0

/-- Runs a cycle, where the source gives an answer and the time is in seconds since 1970. -/
def runCycle (t : RateTable) (time : UInt64) (answer : Except FetchError (List Row)) :
    Option CycleResult × RateTable :=
  match t.call with
  | (some result, t) => (some result, t)
  | (none, t) =>
    match t.fetched answer with
    | (some result, t) => (some result, t)
    | (none, t) =>
      let (_, t) := t.listed .passed
      t.writeAll time t.changesLeft

end RateTable

end Roster
