import Roster.Table.Row
import Roster.Time.Duration

/-!
# Configuration of the rate table

Where the rows come from, where the entries are kept, and how often they are brought up to date.
-/

namespace Roster

/-- Where rows come from. -/
inductive AnalyticsConfig where
  | http (url : String) (timeoutSeconds : Nat)
  | static (rows : List Row)

/-- Where records are kept. -/
inductive StoreConfig where
  | filesystem (baseDir : String)
  | memory
  deriving DecidableEq, Repr

section Reading

variable {σ τ : Type} [ReadScalar σ] [ReadScalar τ] [Settle σ τ]

/-- A source from its section, by the kind that the section names. -/
def AnalyticsConfig.ofTree? (t : Tree σ) : Option AnalyticsConfig := do
  match ← (t.tagged? : Option (String × Tree τ)) with
  | ("http", rest) =>
    match ← rest.record? ["url", "timeout_secs"] with
    | [url, timeout] =>
      pure (.http (← Tree.required Tree.text? url)
        (← Tree.withDefault 30 (Tree.natBelow? 64) timeout))
    | _ => none
  | ("static", rest) =>
    match ← rest.record? ["rows"] with
    | [rows] => pure (.static (← Tree.required (Tree.list? Row.ofTree?) rows))
    | _ => none
  | _ => none

/-- A store from its section, by the kind that the section names. -/
def StoreConfig.ofTree? (t : Tree σ) : Option StoreConfig := do
  match ← (t.tagged? : Option (String × Tree τ)) with
  | ("filesystem", rest) =>
    match ← rest.record? ["base_dir"] with
    | [baseDir] => pure (.filesystem (← Tree.required Tree.text? baseDir))
    | _ => none
  | ("memory", .array (_ :: _)) => none
  | ("memory", _) => some .memory
  | _ => none

end Reading

/-- How the table is kept up to date. -/
structure TableConfig where
  analytics : AnalyticsConfig
  store : StoreConfig
  /-- seconds between cycles -/
  intervalSeconds : Nat := 3600
  /-- the longest time that a cycle may take -/
  cycleTimeoutSeconds : Nat := 600
  /-- whether this process brings the table up to date; others only read it -/
  synchronize : Bool := true

namespace TableConfig

/-- A configuration of the table, with what is standard for what is left out. -/
def ofTree? {σ τ : Type} [ReadScalar σ] [ReadScalar τ] [Settle σ τ] (t : Tree σ) :
    Option TableConfig := do
  match ← t.record?
      ["analytics", "store", "interval_secs", "cycle_timeout_secs", "synchronize"] with
  | [analytics, store, interval, timeout, synchronize] =>
    pure {
      analytics := ← Tree.required AnalyticsConfig.ofTree? analytics
      store := ← Tree.required StoreConfig.ofTree? store
      intervalSeconds := ← Tree.withDefault 3600 (Tree.natBelow? 64) interval
      cycleTimeoutSeconds := ← Tree.withDefault 600 (Tree.natBelow? 64) timeout
      synchronize := ← Tree.withDefault true Tree.bool? synchronize }
  | _ => none

/-- The time between two cycles. -/
def interval (c : TableConfig) : Duration :=
  .ofSeconds c.intervalSeconds

/-- The longest time that a cycle may take. -/
def cycleTimeout (c : TableConfig) : Duration :=
  .ofSeconds c.cycleTimeoutSeconds

/-- What is wrong with a configuration of the table. -/
inductive Fault where
  | zeroInterval
  | zeroCycleTimeout
  | zeroFetchTimeout
  | emptyBaseDir
  deriving DecidableEq, Repr

/-- What is said about a configuration of the table. -/
def Fault.message : Fault → String
  | .zeroInterval => "interval_secs must be greater than 0"
  | .zeroCycleTimeout => "cycle_timeout_secs must be greater than 0"
  | .zeroFetchTimeout => "analytics timeout_secs must be greater than 0"
  | .emptyBaseDir => "filesystem store base_dir is empty"

/-- Rows are to be fetched in no time. -/
def zeroFetchTimeout (c : TableConfig) : Bool :=
  match c.analytics with
  | .http _ 0 => true
  | _ => false

/-- The first fault of a configuration of the table, in the order in which they are looked for. -/
def fault? (c : TableConfig) : Option Fault :=
  if c.intervalSeconds = 0 then some .zeroInterval
  else if c.cycleTimeoutSeconds = 0 then some .zeroCycleTimeout
  else if c.zeroFetchTimeout then some .zeroFetchTimeout
  else if c.store = .filesystem "" then some .emptyBaseDir
  else none

end TableConfig

end Roster
