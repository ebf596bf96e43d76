import Roster.Config.Query
import Roster.Query.Response
import Roster.Read.Reader

/-!
# Assembling responses

A request goes through three stages. First everything that needs no table: its class, its policy,
the load, and when the client is to come back. Then, unless that already gave an answer, the
candidates are read. Last the targets are chosen among them. The first and the last stage are
functions; only the second waits for the backends, and other requests may come and go meanwhile.

A request counts as in flight from before its first stage until its answer is complete.
-/

namespace Roster

/-- What answers queries. -/
structure Assembler where
  scheduler : Scheduler
  selector : Selector
  services : List (String × Templates)
  /-- the keys that are accepted; without any, every key is -/
  apiKeys : List String
  load : LoadMonitor
  dice : Dice

/-- What comes of a query before the table is read. -/
inductive Preparation where
  /-- the request is faulty -/
  | refused (response : Response)
  /-- the load forbids to look for targets -/
  | throttled (reason : ThrottleReason) (response : Response)
  /-- targets are to be looked for under a policy, and the client is to come back as told -/
  | admitted (policy : Policy) (next : NextRequest)

namespace Assembler

/-! ## Building -/

/-- The longest window of a client that can be kept, a thousand years of 365 days, in seconds. -/
def longestWindow : Nat := 1000 * 365 * 86400

/-- Why there is no assembler for a configuration. -/
inductive BuildError where
  | config (fault : QueryConfig.Fault)
  /-- the window of a client is longer than can be kept -/
  | windowTooLong

/-- What is said about a configuration without an assembler. -/
def BuildError.message : BuildError → String
  | .config fault => "invalid config: " ++ fault.message
  | .windowTooLong => "time_to_live is longer than 1000 years"

/-- The assembler of a configuration that has not been validated. -/
def ofConfig (c : QueryConfig) (math : Elementary) (dice : Dice) : Except BuildError Assembler :=
  if longestWindow < c.load.windowSeconds then .error .windowTooLong
  else .ok {
    scheduler := {
      pacing := c.pacing, signer := ⟨Token.octets c.tokenSecret⟩, base := c.baseUrl, math }
    selector := { maxResults := c.maxResults, math }
    services := c.services
    apiKeys := c.apiKeys
    load := .ofLimits c.load
    dice }

/-- The assembler for a configuration that has no fault. -/
def build (c : QueryConfig) (math : Elementary) (dice : Dice) : Except BuildError Assembler :=
  match c.fault? with
  | some fault => .error (.config fault)
  | none => ofConfig c math dice

/-! ## Classes -/

/-- The key of a request, if it is accepted. An empty one is none. -/
def acceptedKey (a : Assembler) (key : Option String) : Option String :=
  key.filter fun k => k ≠ "" && (a.apiKeys.isEmpty || a.apiKeys.contains k)

/-- The class of a request. A token counts only with an accepted key, and if it is valid at the
    time. -/
def classify (a : Assembler) (r : Request) (now : Instant) : Priority :=
  let key := a.acceptedKey r.apiKey
  let token := r.accessToken.filter (· ≠ "")
  let valid :=
    match key, token with
    | some key, some token => a.scheduler.signer.accepts token key now
    | _, _ => false
  Priority.classify key.isSome token.isSome valid

/-! ## Before the table is read -/

/-- The policy of a request; what is said about a text that names none. -/
def policyOf (name : Option String) : Except String Policy :=
  match name with
  | none | some "" => .ok .standard
  | some name =>
    match Policy.parse? name with
    | some policy => .ok policy
    | none => .error (Policy.parseMessage name)

/-- The status and the title of an answer that the load forbids. -/
def throttleStatus : ThrottleReason → Nat × String
  | .capacityExhausted => (503, "capacity exhausted")
  | .clientRateExceeded => (429, "client rate exceeded")

/-- Takes note of the load and schedules the client's next request, which may be all that it
    gets. -/
def pace (a : Assembler) (r : Request) (policy : Policy) (now clock : Instant) :
    Preparation × Assembler :=
  let priority := a.classify r now
  let (signal, load) := a.load.signal clock r.client.address
  let (schedule, dice) :=
    a.scheduler.schedule priority now signal r.service (a.acceptedKey r.apiKey) a.dice
  let a := { a with load, dice }
  match schedule.throttle with
  | none => (.admitted policy schedule.next, a)
  | some reason =>
    let (status, title) := throttleStatus reason
    (.throttled reason (.failure r priority status title "retry after next_request.not_before"
      (some schedule.next)), a)

/-- The first stage, for a request that comes at the time `now`; `clock` measures
    the clients' windows. -/
def prepare (a : Assembler) (r : Request) (now clock : Instant) : Preparation × Assembler :=
  let refuse (title detail : String) : Preparation × Assembler :=
    (.refused (.failure r (a.classify r now) 400 title detail none), a)
  match policyOf r.policy with
  | .error detail => refuse "unknown policy" detail
  | .ok policy =>
    if policy = .metro ∧ r.client.metro.isNone then
      refuse "missing metro" "the metro policy requires a metro parameter"
    else a.pace r policy now clock

/-! ## After the table has been read -/

/-- What is said when no candidate can serve a client. -/
def noTargets (r : Request) (policy : Policy) : String :=
  "no eligible targets for service '" ++ r.service ++ "' with policy '" ++ policy.label ++ "'"

/-- The last stage: the answer, from the candidates or the failure to read them. -/
def conclude (a : Assembler) (r : Request) (policy : Policy) (next : NextRequest) (now : Instant)
    (candidates : Except ReadError (List Entry)) : Response × Assembler :=
  let priority := a.classify r now
  match candidates with
  | .error _ =>
    (.failure r priority 503 "rate table unavailable"
      "the rate table could not be read" (some next), a)
  | .ok candidates =>
    let (selected, dice) := a.selector.select policy candidates r.client a.dice
    let a := { a with dice }
    if selected.isEmpty then
      (.failure r priority 404 "no targets" (noTargets r policy) (some next), a)
    else
      ({ status := 200, priority, next := some next
         targets := selected.map (Target.ofEntry a.services) }, a)

/-! ## The whole way -/

/-- A query begins. -/
def enter (a : Assembler) : Assembler :=
  { a with load := a.load.enter }

/-- A query has ended. -/
def leave (a : Assembler) : Assembler :=
  { a with load := a.load.leave }

/-- Counts an answer in its class, and under its status if it is a problem. -/
def recordResponse (response : Response) (l : Ledger) : Ledger :=
  let l := { l with queries := l.queries + 1 }
  let l := l.count (.queries response.priority)
  match response.problem with
  | none => l
  | some problem => l.count (.queryErrors problem.status)

variable {m : Type → Type} [Monad m]

/-- The answer to a request that comes at the time `now`; `clock` measures the clients' windows. -/
def assemble (access : Access m) (a : Assembler) (r : Request) (now clock : Instant) :
    m (Response × Assembler) := do
  let a := a.enter
  access.record fun l => { l with inFlight := some a.load.inFlight }
  let (preparation, a) := a.prepare r now clock
  let (response, a) ←
    match preparation with
    | .refused response => pure (response, a)
    | .throttled reason response => do
      access.record fun l => l.count (.throttled reason)
      pure (response, a)
    | .admitted policy next => do
      let candidates ← access.candidates r.service policy.tableName
      pure (a.conclude r policy next now candidates)
  access.record (recordResponse response)
  pure (response, a.leave)

end Assembler

end Roster
