import Roster.Command.Arguments
import Roster.Config.App
import Roster.Query.Assembler
import Roster.Sync.RateTable

/-!
# Starting the process

From its configuration the process opens its store, makes its source and runs a cycle, or listens
for queries. Each of these may fail, and the first that does ends the process with a message. What
the process finds around it is its `Surroundings`; the disk is the one part of them that it changes.
-/

namespace Roster.Command

/-! ## Surroundings -/

/-- Everything that a process finds when it starts. -/
structure Surroundings where
  disk : Disk := {}
  /-- where paths start -/
  workingFolder : Place := []
  /-- where somebody else listens -/
  occupied : List Listener := []
  /-- what comes of the requests to an address -/
  exchange : String → Nat → Analytics.Exchange
  /-- the time in seconds since 1970 -/
  time : Nat
  math : Elementary
  dice : Dice

/-! ## Listening -/

/-- Why queries cannot be served. -/
inductive ServeError where
  | build (error : Assembler.BuildError)
  /-- the listener for queries cannot be had -/
  | query (fault : SystemFault)
  /-- the listener for the admin endpoints cannot be had -/
  | admin (fault : SystemFault)

/-- What is said about an error of the server. -/
def ServeError.message : ServeError → String
  | .build error => error.message
  | .query fault => "query API: IO error: " ++ fault.message
  | .admin fault => "I/O error: " ++ fault.message

def everyHost : String := "0.0.0.0"

/-- Two listeners cannot be had at once. -/
def collides (a b : Listener) : Bool :=
  a.port = b.port && (a.host = b.host || a.host = everyHost || b.host = everyHost)

/-- Takes a listener, unless somebody has one that collides with it. -/
def listen (occupied : List Listener) (l : Listener) : Except SystemFault (List Listener) :=
  if occupied.any (collides l) then .error .addressInUse else .ok (l :: occupied)

/-- The assembler that answers the queries, once both listeners are there. -/
def serve (c : QueryConfig) (occupied : List Listener) (math : Elementary) (dice : Dice) :
    Except ServeError Assembler := do
  let a ← (Assembler.build c math dice).mapError .build
  let occupied ← (listen occupied c.listener).mapError .query
  let _ ← (listen occupied c.adminListener).mapError .admin
  pure a

/-! ## Starting -/

/-- Why a process ends with an error. -/
inductive StartupError where
  | missingSection (name : String)
  | tableConfig (fault : TableConfig.Fault)
  | store (error : StoreError)
  | source (error : FetchError)
  | cycle (error : SyncError)
  | serve (error : ServeError)

/-- What is said about an error of the process. -/
def StartupError.message : StartupError → String
  | .missingSection name => "missing config section: " ++ name
  | .tableConfig fault => "invalid rate_table config: " ++ fault.message
  | .store error => "store: " ++ error.message
  | .source error => "analytics: " ++ error.message
  | .cycle error => "synchronization: " ++ error.message
  | .serve error => error.message

/-- The name of the folder of records below the configured one. -/
def storeNamespace : String := "endpoint_stats"

/-- The store that a configuration asks for, opened. -/
def openStore (s : Surroundings) (c : StoreConfig) : Except StoreError Store :=
  match c with
  | .memory => .ok (.memory .empty)
  | .filesystem baseDir =>
    (FileStore.openIn s.disk (s.workingFolder.resolve baseDir) storeNamespace).map
      fun (store, disk) =>
      .files store disk

/-- What the source of rows gives, unless there can be no source. The rows may be missing all the
    same. -/
def answerOf (s : Surroundings) (c : AnalyticsConfig) :
    Except FetchError (Except FetchError (List Row)) :=
  match c with
  | .static rows => .ok (.ok rows)
  | .http text _ => (Analytics.sourceUrl text).map fun url =>
      (Analytics.fetch (s.exchange url.render)).1

/-- The section on the table, if it is there and in order. -/
def tableSection (c : AppConfig) : Except StartupError TableConfig :=
  match c.rateTable with
  | none => .error (.missingSection "rate_table")
  | some table =>
    match table.fault? with
    | some fault => .error (.tableConfig fault)
    | none => .ok table

/-- A table on a store that nobody has synchronized yet. -/
def tableOn (store : Store) (c : TableConfig) : RateTable :=
  { backends := { store }, synchronizer := { timeout := c.cycleTimeout } }

/-- The disk after a store has worked on it. -/
def diskWith (s : Surroundings) (store : Store) : Disk :=
  match store with
  | .files _ disk => disk
  | .memory _ => s.disk

/-- What a job comes to, and the table as far as it got. -/
structure Result (α : Type) where
  value : Except StartupError α
  disk : Disk

/-- Nothing has been done to the disk. -/
def failed {α : Type} (s : Surroundings) (error : StartupError) : Result α :=
  { value := .error error, disk := s.disk }

/-- Opens the store and makes the source, if it is wanted, and goes on with both. -/
def withTable {α : Type} (s : Surroundings) (c : TableConfig) (wanted : Bool)
    (f : RateTable → Option (Except FetchError (List Row)) → Result α) : Result α :=
  match openStore s c.store with
  | .error e => failed s (.store e)
  | .ok store =>
    let opened := { s with disk := diskWith s store }
    if wanted then
      match answerOf s c.analytics with
      | .error e => failed opened (.source e)
      | .ok answer => f (tableOn store c) (some answer)
    else f (tableOn store c) none

/-- One cycle, and what it comes to. -/
def syncOnce (s : Surroundings) (c : AppConfig) : Result CycleReport :=
  match tableSection c with
  | .error e => failed s e
  | .ok table =>
    withTable s table true fun t answer =>
      let (result, t) := t.runCycle s.time.toUInt64 (answer.getD (.ok []))
      { disk := diskWith s t.backends.store
        value :=
          match result with
          | some (.ok report) => .ok report
          | some (.error e) => .error (.cycle e)
          | none => .error (.cycle .workerStopped) }

/-- A process that answers queries. -/
structure Server where
  assembler : Assembler
  table : RateTable
  /-- whether the table can be relied on -/
  ready : Bool

/-- Starts to serve queries. If this process keeps the table up to date, its first cycle has been
    run by then, whatever came of it. -/
def locate (s : Surroundings) (c : AppConfig) : Result Server :=
  match c.locate with
  | none => failed s (.missingSection "locate")
  | some config =>
    match tableSection c with
    | .error e => failed s e
    | .ok table =>
      withTable s table table.synchronize fun t answer =>
        let (ready, t) :=
          match answer with
          | some answer =>
            let (result, t) := t.runCycle s.time.toUInt64 answer
            (result.any Except.isOk, t)
          | none => (true, t)
        { disk := diskWith s t.backends.store
          value :=
            match serve config s.occupied s.math s.dice with
            | .ok assembler => .ok { assembler, table := t, ready }
            | .error e => .error (.serve e) }

/-- The folder in which the records of a configuration are kept, if they are kept in one. -/
def recordFolder? (s : Surroundings) (c : AppConfig) : Option Place :=
  match c.rateTable.map TableConfig.store with
  | some (.filesystem baseDir) =>
    some ((s.workingFolder.resolve baseDir).resolve storeNamespace)
  | _ => none

/-! ## The process -/

/-- Whether errors can be reported to an address: on a web server, under a key in the
    place of the user, to a project that the path names. The empty text means that they
    are not to be reported. -/
def takesReports (address : String) : Bool :=
  address = "" ||
    match Url.parse address with
    | .error _ => false
    | .ok u => QueryConfig.isWebUrl u && u.username ≠ "" && u.pathText.toList.any (· ≠ '/')

/-- What a run of the process comes to. -/
inductive Ending where
  | misuse
  | help
  /-- there is no configuration -/
  | noConfig (error : AppConfig.LoadError)
  /-- the configuration holds what the process cannot work with; nothing is logged -/
  | aborted (reason : String)
  | failed (error : StartupError)
  | synchronized (report : CycleReport)
  | serving (server : Server)

namespace Ending

/-- The exit status. A process that serves has none yet. -/
def status? : Ending → Option Nat
  | .misuse => some 2
  | .help | .synchronized _ => some 0
  | .noConfig _ | .failed _ => some 1
  | .aborted _ => some 101
  | .serving _ => none

/-- The error that the process names in its last words. -/
def cause? : Ending → Option String
  | .failed error => some error.message
  | _ => none

/-- A window that is too long breaks the process off, and other errors end it in order. -/
def ofError : StartupError → Ending
  | .serve (.build .windowTooLong) => .aborted Assembler.BuildError.windowTooLong.message
  | error => .failed error

end Ending

/-- Runs the process with its arguments, and gives the disk as it leaves it. -/
def run (s : Surroundings) (arguments : List String) : Ending × Disk :=
  match read arguments with
  | .misuse => (.misuse, s.disk)
  | .help => (.help, s.disk)
  | .run path job =>
    match AppConfig.load (s.disk.readText (s.workingFolder.resolve path)) with
    | .error e => (.noConfig e, s.disk)
    | .ok config =>
      if config.errorReports.any (!takesReports ·) then (.aborted "invalid value for DSN", s.disk)
      else
        match job with
        | .syncOnce =>
          let r := syncOnce s config
          (match r.value with
            | .ok report => .synchronized report
            | .error e => .ofError e, r.disk)
        | .locate =>
          let r := locate s config
          (match r.value with
            | .ok server => .serving server
            | .error e => .ofError e, r.disk)

end Roster.Command
