import Roster.Http.Message
import Roster.Query.Assembler

/-!
# The query interface

Requests for targets come as `GET /v2/query/SERVICE` with parameters in the query. A parameter that
cannot be read is answered with a problem, like anything that goes wrong later. Only what the path
or the form of the query itself makes unreadable is answered in plain text, before there is a
request to speak of.
-/

namespace Roster.Http

/-! ## Parameters -/

/-- The parameters that are known. -/
def parameterNames : List String :=
  ["policy", "key", "access_token", "lat", "lon", "metro", "af", "ip"]

/-- The first known parameter that is given again, where those in `seen` have been given. -/
def repeated? (seen : List String) : List (String × String) → Option String
  | [] => none
  | (name, _) :: rest =>
    if !parameterNames.contains name then repeated? seen rest
    else if seen.contains name then some name
    else repeated? (name :: seen) rest

/-- A number is no further from zero than a bound. No number at all is not within any. -/
def within (bound x : Float) : Bool :=
  -bound ≤ x && x ≤ bound

/-- The place that latitude and longitude name, if both are given. -/
def readLocation (latitude longitude : Option String) : Except String (Option Location) :=
  match latitude, longitude with
  | some latitude, some longitude =>
    match Decimal.read? latitude, Decimal.read? longitude with
    | none, _ => .error ("invalid latitude '" ++ latitude ++ "'")
    | _, none => .error ("invalid longitude '" ++ longitude ++ "'")
    | some latitude, some longitude =>
      if within 90.0 latitude && within 180.0 longitude then .ok (some { latitude, longitude })
      else .error ("coordinates (" ++ Decimal.plainText latitude ++ ", " ++
        Decimal.plainText longitude ++ ") out of range")
  | _, _ => .ok none

/-- The address family that a text names; an empty text names none. -/
def readFamily (text : Option String) : Except String (Option AddressFamily) :=
  match text with
  | none | some "" => .ok none
  | some text =>
    match AddressFamily.parse? text with
    | some family => .ok (some family)
    | none => .error (AddressFamily.parseMessage text)

/-- The address of the first host on a way of several. -/
def firstHop (hops : String) : String :=
  let blank (c : Char) : Bool := c = ' ' || c = '\t'
  let hop := (hops.toList.takeWhile (· ≠ ',')).dropWhile blank
  .ofList (hop.reverse.dropWhile blank).reverse

/-- The address of the client: the one it names, or the first one on the way that the request has
    taken, or the one from which the request came. -/
def clientAddress (m : Message) (named : Option String) : Option String :=
  (named.filter (· ≠ "")).or
    ((((m.header "x-forwarded-for").map firstHop).filter (· ≠ "")).or m.peer)

/-! ## Routing -/

/-- Where a message leads: to a reply at once, or to a query. -/
inductive Routing where
  | reply (r : Reply)
  | query (r : Request)

/-- The service that a path names, as it is written there. -/
def serviceOf? (path : String) : Option String :=
  let start := "/v2/query/".toList
  let rest := path.toList.drop start.length
  if start.isPrefixOf path.toList && !rest.isEmpty && !rest.contains '/' then some (.ofList rest)
  else none

/-- The reply to a parameter that cannot be read. -/
def invalidParameter (path detail : String) : Reply :=
  .json 400
    (answerJson (some { status := 400, title := "invalid parameter", detail, path }) none [])

/-- A name between backticks. -/
def marked (name : String) : String :=
  let mark := String.singleton (Char.ofNat 0x60)
  mark ++ name ++ mark

/-- The request for the targets of a service that the parameters make. -/
def queryOf (m : Message) (service : String) (parameters : List (String × String)) : Routing :=
  let get (name : String) : Option String := parameters.lookup name
  match readLocation (get "lat") (get "lon") with
  | .error detail => .reply (invalidParameter m.target.path detail)
  | .ok location =>
    match readFamily (get "af") with
    | .error detail => .reply (invalidParameter m.target.path detail)
    | .ok family =>
      .query {
        service
        policy := get "policy"
        apiKey := get "key"
        accessToken := get "access_token"
        client := {
          address := clientAddress m (get "ip"), location
          metro := (get "metro").filter (· ≠ ""), family }
        path := m.target.path }

/-- Routes a request for the targets of a service that is written as in a path. -/
def routeQuery (m : Message) (written : String) : Routing :=
  let octets : ByteArray := ⟨(Url.decodeOctets written.toList).toArray⟩
  match String.fromUTF8? octets with
  | none => .reply (.plain 400 ("Invalid URL: Invalid UTF-8 in " ++ marked "service"))
  | some service =>
    let parameters := Url.formPairs (m.target.query.getD "").toList
    match repeated? [] parameters with
    | some name =>
      .reply (.plain 400 ("Failed to deserialize query string: duplicate field " ++ marked name))
    | none => queryOf m service parameters

/-- Where a message leads. The path is looked at first and the method after it. -/
def route (m : Message) : Routing :=
  match serviceOf? m.target.path with
  | none => .reply { status := 404 }
  | some written =>
    if m.method = "GET" ∨ m.method = "HEAD" then routeQuery m written
    else .reply { status := 405 }

/-! ## Answers -/

/-- The answer of a query as a reply. -/
def replyOf (r : Response) : Reply :=
  .json r.status r.toJson

variable {m : Type → Type} [Monad m]

/-- The reply to a request that comes at the time `now`; `clock` measures the clients' windows. -/
def answer (access : Access m) (a : Assembler) (message : Message) (now clock : Instant) :
    m (Reply × Assembler) := do
  match route message with
  | .reply r => pure (r.toMethod message.method, a)
  | .query r => do
    let (response, a) ← a.assemble access r now clock
    pure ((replyOf response).toMethod message.method, a)

end Roster.Http
