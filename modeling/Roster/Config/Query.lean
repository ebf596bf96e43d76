import Roster.Query.Load
import Roster.Query.Pacing
import Roster.Query.Target
import Roster.Url.Parser

/-!
# Configuration of the query service

Where the service listens, under which address clients reach it, whom it knows, and what it is sized
for.
-/

namespace Roster

/-- A place where connections are taken. -/
structure Listener where
  host : String
  port : Nat
  deriving DecidableEq, Repr

/-- A listener from its section. -/
def Listener.ofTree? {σ : Type} [ReadScalar σ] (t : Tree σ) : Option Listener := do
  match ← t.record? ["host", "port"] with
  | [host, port] =>
    pure {
      host := ← Tree.required Tree.text? host
      port := ← Tree.required (Tree.natBelow? 16) port }
  | _ => none

/-- Reads what the server is sized for; each setting that is absent has its standard value. -/
def LoadLimits.ofTree? {σ : Type} [ReadScalar σ] (t : Tree σ) : Option LoadLimits := do
  match ← t.record? ["capacity", "client_window_secs", "client_max_requests"] with
  | [capacity, window, requests] =>
    let standard : LoadLimits := {}
    pure {
      capacity := ← Tree.withDefault standard.capacity (Tree.natBelow? 64) capacity
      windowSeconds := ← Tree.withDefault standard.windowSeconds (Tree.natBelow? 64) window
      clientRequests := ← Tree.withDefault standard.clientRequests (Tree.natBelow? 32) requests }
  | _ => none

/-- The number of results that is offered when nothing else is configured. -/
def standardMaxResults : Nat := 4

/-- The number of targets from its section. -/
def maxResultsOf? {σ : Type} [ReadScalar σ] (t : Tree σ) : Option Nat := do
  match ← t.record? ["max_results"] with
  | [max] => Tree.withDefault standardMaxResults (Tree.natBelow? 64) max
  | _ => none

/-- The templates of each service, by the names of its resources. -/
def templatesOf? {σ : Type} [ReadScalar σ] (t : Tree σ) : Option (List (String × Templates)) :=
  t.map? (Tree.map? Tree.text?)

/-- How queries are answered. -/
structure QueryConfig where
  listener : Listener
  adminListener : Listener
  baseUrl : Url
  tokenSecret : String
  /-- the keys that are accepted; without any, every key is -/
  apiKeys : List String := []
  cacheReadTimeoutMillis : Nat := 50
  pacing : Pacing := {}
  load : LoadLimits := {}
  maxResults : Nat := standardMaxResults
  services : List (String × Templates) := []

namespace QueryConfig

/-- The names of the settings in the order in which they are written. -/
def fieldNames : List String :=
  ["listener", "admin_listener", "base_url", "token_secret", "api_keys", "cache_read_timeout_ms",
    "scheduler", "load", "selection", "services"]

/-- An address that can be read. -/
def urlOf? {σ : Type} [ReadScalar σ] (t : Tree σ) : Option Url := do
  (Url.parse (← t.text?)).toOption

/-- Reads the configuration, where `float` reads a number. -/
def ofTreeWith? {σ : Type} [ReadScalar σ] (float : Tree σ → Option Float) (t : Tree σ) :
    Option QueryConfig := do
  match ← t.record? fieldNames with
  | [listener, admin, base, secret, keys, timeout, scheduler, load, selection, services] =>
    pure {
      listener := ← Tree.required Listener.ofTree? listener
      adminListener := ← Tree.required Listener.ofTree? admin
      baseUrl := ← Tree.required urlOf? base
      tokenSecret := ← Tree.required Tree.text? secret
      apiKeys := ← Tree.withDefault [] (Tree.list? Tree.text?) keys
      cacheReadTimeoutMillis := ← Tree.withDefault 50 (Tree.natBelow? 64) timeout
      pacing := ← Tree.withDefault {} (Pacing.ofTreeWith? float) scheduler
      load := ← Tree.withDefault {} LoadLimits.ofTree? load
      maxResults := ← Tree.withDefault standardMaxResults maxResultsOf? selection
      services := ← Tree.withDefault [] templatesOf? services }
  | _ => none

/-- A configuration of queries, whose numbers are read as any number is. -/
def ofTree? {σ : Type} [ReadScalar σ] (t : Tree σ) : Option QueryConfig :=
  ofTreeWith? Tree.float? t

/-- How long the cache may take to answer. -/
def cacheReadTimeout (c : QueryConfig) : Duration :=
  .ofMillis c.cacheReadTimeoutMillis

/-! ## Validation -/

/-- What is wrong with a configuration of queries. -/
inductive Fault where
  | zeroPort
  | baseUrl (url : Url)
  | emptySecret
  | emptyKey
  | pacing (fault : Pacing.Fault)
  | zeroCapacity
  | zeroWindow
  | zeroResults
  | emptyTemplate (service : String)

/-- What is said about a configuration of queries. -/
def Fault.message : Fault → String
  | .zeroPort => "Port cannot be 0"
  | .baseUrl url => "base_url must be an absolute http(s) URL: " ++ url.render
  | .emptySecret => "token_secret cannot be empty"
  | .emptyKey => "Empty API key"
  | .pacing fault => "Scheduler: " ++ fault.message
  | .zeroCapacity => "load capacity must be greater than 0"
  | .zeroWindow => "client_window_secs must be greater than 0"
  | .zeroResults => "max_results must be greater than 0"
  | .emptyTemplate service => "Service " ++ service ++ " has an empty URL template"

/-- Whether clients can be sent to addresses below this one. -/
def isWebUrl (u : Url) : Bool :=
  (u.scheme = "http" || u.scheme = "https") &&
    match u.path with
    | .segments _ => true
    | .opaqueText _ => false

/-- The first fault of a configuration of queries, in the order in which they are looked for. -/
def fault? (c : QueryConfig) : Option Fault :=
  if c.listener.port = 0 ∨ c.adminListener.port = 0 then some .zeroPort
  else if !isWebUrl c.baseUrl then some (.baseUrl c.baseUrl)
  else if c.tokenSecret = "" then some .emptySecret
  else if c.apiKeys.contains "" then some .emptyKey
  else
    match c.pacing.fault? with
    | some fault => some (.pacing fault)
    | none =>
      if c.load.capacity = 0 then some .zeroCapacity
      else if c.load.windowSeconds = 0 then some .zeroWindow
      else if c.maxResults = 0 then some .zeroResults
      else
        (c.services.find? fun s => s.2.any fun t => t.2 = "").map fun s => .emptyTemplate s.1

end QueryConfig

end Roster
