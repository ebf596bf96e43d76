import Roster.Json.Writer
import Roster.Query.Schedule
import Roster.Query.Selection
import Roster.Query.Target

/-!
# Requests and responses

What a client asks for, and what it is told: targets, or a problem. A problem is told in a form that
programs can read, with a type that follows from the status. Whether there are targets or a problem,
a request that was well formed is also told when to come back.
-/

namespace Roster

/-- What a client asks for. -/
structure Request where
  service : String
  policy : Option String := none
  apiKey : Option String := none
  accessToken : Option String := none
  client : Client := {}
  /-- the path of the request, which a problem refers to -/
  path : String

/-- Why a client gets no targets. -/
structure Problem where
  status : Nat
  title : String
  detail : String
  path : String
  deriving DecidableEq, Repr

namespace Problem

/-- The name of the kind of problem that a status stands for. -/
def typeOf (status : Nat) : String :=
  match status with
  | 400 => "bad-request"
  | 404 => "no-targets"
  | 429 => "client-rate-exceeded"
  | 503 => "unavailable"
  | _ => "about:blank"

/-- A problem in JSON. -/
def toJson (p : Problem) : Json :=
  .fields [("type", .text (typeOf p.status)), ("title", .text p.title), ("status", .nat p.status),
    ("detail", .text p.detail), ("instance", .text p.path)]

end Problem

/-- The answer to a query. -/
structure Response where
  status : Nat
  priority : Priority
  problem : Option Problem := none
  next : Option NextRequest := none
  targets : List Target := []
  deriving DecidableEq, Repr

/-- A next request in JSON. -/
def NextRequest.toJson (n : NextRequest) : Json :=
  .fields [("not_before", .text n.notBefore.text), ("expires", .text n.expires.text),
    ("url", .text n.url)]

/-- A target in JSON, with its addresses by the names of the resources. -/
def Target.toJson (t : Target) : Json :=
  .fields [("machine", .text t.machine),
    ("urls", .fields (t.urls.map fun (resource, url) => (resource, .text url)))]

/-- What a client receives: a problem, the next request and targets, each if there is one. -/
def answerJson (problem : Option Problem) (next : Option NextRequest) (targets : List Target) :
    Json :=
  .fields ((problem.map fun p => ("error", p.toJson)).toList ++
    (next.map fun n => ("next_request", n.toJson)).toList ++
    if targets.isEmpty then [] else [("results", .list (targets.map Target.toJson))])

namespace Response

/-- An answer in JSON. Its status and its class are left out. -/
def toJson (r : Response) : Json :=
  answerJson r.problem r.next r.targets

/-- The answer that a request gets instead of targets. -/
def failure (r : Request) (priority : Priority) (status : Nat) (title detail : String)
    (next : Option NextRequest) : Response where
  status
  priority
  problem := some { status, title, detail, path := r.path }
  next

end Response

end Roster
