import Roster.Config.Query
import Roster.Config.Table
import Roster.System.Fault
import Roster.Yaml.Reader

/-!
# The configuration file

One document configures the whole process. Every section may be missing: which ones are needed
depends on what the process is asked to do. The sections on metrics and logging are settled before
they are read, and so is every section that is not known.
-/

namespace Roster

/-- Where counters are sent to. -/
structure StatsConfig where
  host : String
  port : Nat
  deriving DecidableEq, Repr

/-- The configuration of a process. Each job needs some of its sections. -/
structure AppConfig where
  metrics : Option StatsConfig := none
  /-- the address to which errors are reported -/
  errorReports : Option String := none
  locate : Option QueryConfig := none
  rateTable : Option TableConfig := none

namespace AppConfig

section Reading

variable {σ τ : Type} [ReadScalar σ] [ReadScalar τ] [Settle σ τ]

/-- The section about counters. -/
def statsOf? (t : Tree τ) : Option StatsConfig := do
  match ← t.record? ["statsd_host", "statsd_port"] with
  | [host, port] =>
    pure {
      host := ← Tree.required Tree.text? host
      port := ← Tree.required (Tree.natBelow? 16) port }
  | _ => none

/-- The section about reports of errors. -/
def reportsOf? (t : Tree τ) : Option String := do
  match ← t.record? ["sentry_dsn"] with
  | [address] => Tree.required Tree.text? address
  | _ => none

/-- A whole configuration. Scalars of the sections that are not read at once are settled first. -/
def ofTree? (t : Tree σ) : Option AppConfig := do
  let members ← t.members?
  if members.any fun m => m.1.isNone then none
  let sections := members.filter fun m => m.1 == some "locate" || m.1 == some "rate_table"
  let others := members.filter fun m => m.1 != some "locate" && m.1 != some "rate_table"
  let settled : List (Option String × Tree τ) ← Tree.settleMembers? others
  pure {
    locate := ← Tree.optional QueryConfig.ofTree? (← Tree.memberOnce "locate" sections)
    rateTable := ← Tree.optional TableConfig.ofTree? (← Tree.memberOnce "rate_table" sections)
    metrics := ← Tree.optional statsOf? (← Tree.memberOnce "metrics" settled)
    errorReports := ← Tree.optional reportsOf? (← Tree.memberOnce "logging" settled) }

end Reading

/-- Why there is no configuration. -/
inductive LoadError where
  | unreadable (fault : SystemFault)
  | malformed
  deriving DecidableEq, Repr

/-- What is said about a file that cannot be opened; about one that does not hold a configuration
    there is nothing fixed to say. -/
def LoadError.message? : LoadError → Option String
  | .unreadable fault => some ("could not load config from file: " ++ fault.message)
  | .malformed => none

/-- The configuration in a file with the given content, if the file could be opened; a content that
    is no text is none. -/
def load (content : Except SystemFault (Option String)) : Except LoadError AppConfig :=
  match content with
  | .error fault => .error (.unreadable fault)
  | .ok text =>
    match (text.bind Yaml.read?).bind ofTree? with
    | some config => .ok config
    | none => .error .malformed

end AppConfig

end Roster
