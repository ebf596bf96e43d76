import Roster.Http.Api
import Roster.Rehearsal.Agenda

/-!
# Steps of a rehearsal

A rehearsal is a list of steps: some change what surrounds the service, some use it, and some let
time pass. Each step gives an answer.
-/

namespace Roster

/-- What is done to a rehearsal. -/
inductive Step where
  /-- the source has other rows from now on -/
  | rows (rows : List Row)
  /-- the source answers differently from now on -/
  | source (mode : SourceMode) (delay : Nat)
  | faults (faults : Faults)
  /-- the process starts anew: what it remembered is gone, and so is the cache -/
  | restart
  | cycle
  /-- a cycle, and some time later another one -/
  | overlap (span : Nat)
  /-- a cycle that is given up after some time -/
  | cancel (span : Nat)
  /-- starts the service with a distance of its cycles -/
  | service (period : Nat)
  | advance (span : Nat)
  | refresh
  | shutdown
  | write (write : Write)
  | read (backend : Backend) (key : String)
  /-- shows what the backends hold -/
  | dump
  | manifest
  | entry (key : Key)
  | candidates (path policy : String)
  /-- begins a query by hand -/
  | hold
  /-- ends a query that was begun by hand -/
  | release (index : Nat)
  /-- the class of a request; `last` if it presents the token of the latest answer -/
  | classify (q : Request) (last : Bool) (now : Instant)
  | query (q : Request) (last : Bool) (now : Instant)
  | http (m : Http.Message)

/-- What can be seen of the synchronizer and its service. -/
structure Status where
  state : SyncState
  /-- the number of entries that were published last -/
  published : Nat
  fetches : Nat
  /-- whether the service is ready, if one was started -/
  ready : Option Bool
  deriving DecidableEq, Repr

/-- What comes of a step. -/
inductive Outcome where
  | done
  | store (result : Except StoreError (Option ByteArray))
  | contents (store cache : List (String × ByteArray))
  | manifest (result : Except ReadError (Option Manifest))
  | entry (result : Except ReadError (Option Entry))
  | candidates (result : Except ReadError (List Entry))
  | inFlight (n : Nat)
  | priority (p : Priority)
  | response (r : Response)
  | reply (r : Http.Reply)
  | cycle (s : Status) (result : CycleResult)
  | overlap (s : Status) (first second : CycleResult) (during after : SyncState)
  | cancelled (s : Status) (cancelled : Bool)
  | service (s : Status)
  | advance (s : Status)
  | refresh (s : Status) (result : CycleResult)
  | shutdown (s : Status)

namespace Rehearsal

/-- How the synchronization stands. -/
def status (r : Rehearsal) : Status where
  state := r.table.synchronizer.state
  published := r.table.synchronizer.publishedSize
  fetches := r.source.fetches
  ready := r.service.map fun s => s.worker.ready

/-! ## Reading -/

/-- Lets time pass, and then asks a backend for a key. -/
def readAfter (span : Nat) (backend : Backend) (key : String) :
    StateM Rehearsal (Except StoreError (Option ByteArray)) := do
  modify fun r => r.pass span
  let r ← get
  pure (r.table.backends.read backend key (r.faults.verdict (backend, .get) key))

/-- Asks the cache, but does not wait for it too long. -/
def askCache (key : String) : StateM Rehearsal CacheAnswer := do
  let r ← get
  let span := r.faults.delay (.cache, .get)
  if r.cacheTimeout < span then
    modify fun r => r.pass r.cacheTimeout
    pure .failure
  else
    match ← readAfter span .cache key with
    | .ok (some value) => pure (.hit value)
    | .ok none => pure .miss
    | .error _ => pure .failure

/-- Asks a backend for a key, which takes as long as the faults say. -/
def ask (backend : Backend) (key : String) :
    StateM Rehearsal (Except StoreError (Option ByteArray)) := do
  readAfter ((← get).faults.delay (backend, .get)) backend key

/-- The way of readers to the backends of a rehearsal. -/
def access : Access (StateM Rehearsal) where
  cache := askCache
  store := ask .store
  record f := modify fun r => { r with table := { r.table with ledger := f r.table.ledger } }

/-! ## Cycles -/

/-- The number of the caller who waits for the first of two cycles. -/
def firstCaller : Nat := 1

/-- The number of the caller who waits for the second of two cycles, or for the only one. -/
def mainCaller : Nat := 0

/-- Lets time pass until a caller has an answer, and takes it. -/
def awaitAnswer (r : Rehearsal) (caller : Nat) : CycleResult × Rehearsal :=
  let r := r.waitUntil fun r => (r.answerFor? caller).isSome
  ((r.answerFor? caller).getD (.error .workerStopped),
    { r with answers := r.answers.filter fun a => a.1 ≠ caller })

/-- A cycle up to its end. -/
def runCycle (r : Rehearsal) (caller : Nat) : CycleResult × Rehearsal :=
  (r.startCycle (.caller caller)).awaitAnswer caller

/-- Runs a cycle, and another one that starts some time later. -/
def overlap (r : Rehearsal) (span : Nat) : Outcome × Rehearsal :=
  let r := (r.startCycle (.caller firstCaller)).pass span
  let during := r.table.synchronizer.state
  let (second, r) := r.runCycle mainCaller
  let after := r.table.synchronizer.state
  let (first, r) := r.awaitAnswer firstCaller
  (.overlap r.status first second during after, r)

/-- A cycle that is given up after some time, if it has not ended by itself. -/
def cancel (r : Rehearsal) (span : Nat) : Outcome × Rehearsal :=
  let r := r.startCycle (.caller mainCaller)
  let r := r.runUntil mainCaller (r.happeningsIn span) (r.clock + span)
  match r.answerFor? mainCaller with
  | some _ =>
    let r := { r with answers := [] }
    (.cancelled r.status false, r)
  | none =>
    let r := { r with table := r.table.dropped, underway := none }
    (.cancelled r.status true, r)

/-- Asks the worker for a cycle, and waits for what it comes to. -/
def refresh (r : Rehearsal) : Outcome × Rehearsal :=
  let (result, r) :=
    (r.withWorker fun worker => worker.send (.refresh mainCaller)).awaitAnswer mainCaller
  (.refresh r.status result, r)

/-- Stops the worker, and waits until it has stopped. -/
def shutdown (r : Rehearsal) : Outcome × Rehearsal :=
  let r := (r.withWorker fun worker => worker.send .shutdown).waitUntil fun r =>
    r.service.all fun s => s.worker.activity = .stopped
  (.shutdown r.status, r)

/-- Starts the service, and lets its first cycle begin. -/
def startService (r : Rehearsal) (period : Nat) : Outcome × Rehearsal :=
  let r := { r with service := some { ticker := .start period r.clock } }.pass 1
  (.service r.status, r)

/-- The table as a new process finds it. -/
def restart (r : Rehearsal) : Rehearsal :=
  { r with
    table := { r.table with
      backends := { r.table.backends with cache := .empty }
      synchronizer := { timeout := r.table.synchronizer.timeout } } }

/-! ## The backends by hand -/

/-- Changes a backend from outside, past the synchronizer. -/
def writeNow (r : Rehearsal) (write : Write) : Outcome × Rehearsal :=
  let usage := (write.backend, write.operation)
  let r := r.pass (r.faults.delay usage)
  let (result, backends) := r.table.backends.write write (r.faults.verdict usage write.key)
  (.store (result.map fun _ => none), { r with table := { r.table with backends } })

/-- What the backends hold. -/
def contents (r : Rehearsal) : Outcome :=
  .contents r.table.backends.store.contents r.table.backends.cache.items

/-! ## Queries -/

/-- The request with the token of the latest answer, if that is what it presents. -/
def withLast (r : Rehearsal) (q : Request) (last : Bool) : Request :=
  if last then { q with accessToken := r.lastToken } else q

/-- The access token in the address of a next request. -/
def tokenIn (url : String) : Option String :=
  match Url.parse url with
  | .ok u => u.pairs.lookup "access_token"
  | .error _ => none

/-- Takes note of the token in an answer, if it has one. -/
def note (r : Rehearsal) (url : Option String) : Rehearsal :=
  match url.bind tokenIn with
  | some token => { r with lastToken := some token }
  | none => r

/-- A query from its beginning to its end. -/
def query (r : Rehearsal) (a : Assembler) (q : Request) (now : Instant) : Outcome × Rehearsal :=
  let ((response, a), r) := a.assemble access q now r.wall r
  (.response response,
    { r with assembler := some a }.note (response.next.map NextRequest.url))

/-- A message from its beginning to its end. -/
def answerHttp (r : Rehearsal) (a : Assembler) (m : Http.Message) : Outcome × Rehearsal :=
  let ((reply, a), r) := Http.answer access a m r.wall r.wall r
  let url : Option String :=
    match reply.body with
    | .json content => do (← (← content.get? "next_request").get? "url").text?
    | .text _ => none
  (.reply reply, { r with assembler := some a }.note url)

/-! ## Steps -/

/-- A use of the assembler; without one nothing happens. -/
def withAssembler (r : Rehearsal) (f : Assembler → Outcome × Rehearsal) : Outcome × Rehearsal :=
  match r.assembler with
  | some a => f a
  | none => (.done, r)

/-- A query begins by hand, and stays in flight. -/
def hold (r : Rehearsal) (a : Assembler) : Outcome × Rehearsal :=
  let a := a.enter
  (.inFlight a.load.inFlight, { r with assembler := some a, guards := r.guards ++ [true] })

/-- Ends a query that was begun by hand, unless it has ended. -/
def release (r : Rehearsal) (a : Assembler) (index : Nat) : Outcome × Rehearsal :=
  if r.guards[index]? = some true then
    let a := a.leave
    (.inFlight a.load.inFlight,
      { r with assembler := some a, guards := r.guards.set index false })
  else (.inFlight a.load.inFlight, r)

/-- What a step does, and what comes of it. -/
def perform (r : Rehearsal) : Step → Outcome × Rehearsal
  | .rows rows => (.done, { r with source := { r.source with rows } })
  | .source mode delay => (.done, { r with source := { r.source with mode, delay } })
  | .faults faults => (.done, { r with faults })
  | .restart => (.done, r.restart)
  | .cycle =>
    let (result, r) := r.runCycle mainCaller
    (.cycle r.status result, r)
  | .overlap span => r.overlap span
  | .cancel span => r.cancel span
  | .service period => r.startService period
  | .advance span =>
    let r := r.pass span
    (.advance r.status, r)
  | .refresh => r.refresh
  | .shutdown => r.shutdown
  | .write write => r.writeNow write
  | .read backend key =>
    let (result, r) := ask backend key r
    (.store result, r)
  | .dump => (r.contents, r)
  | .manifest =>
    let (result, r) := access.manifest r
    (.manifest result, r)
  | .entry key =>
    let (result, r) := access.entry key r
    (.entry result, r)
  | .candidates path policy =>
    let (result, r) := access.candidates path policy r
    (.candidates result, r)
  | .hold => r.withAssembler fun a => r.hold a
  | .release index => r.withAssembler fun a => r.release a index
  | .classify q last now =>
    r.withAssembler fun a => (.priority (a.classify (r.withLast q last) now), r)
  | .query q last now => r.withAssembler fun a => r.query a (r.withLast q last) now
  | .http m => r.withAssembler fun a => r.answerHttp a m

end Rehearsal

end Roster
