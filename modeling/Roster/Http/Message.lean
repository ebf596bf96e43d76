import Roster.Http.RequestTarget
import Roster.Json.Writer
import Roster.Url.Host

/-!
# Messages

Requests as they reach a listener, and the replies to them.
-/

namespace Roster.Http

/-! ## Requests -/

/-- A request. The names of its headers are in lower case. -/
structure Message where
  method : String
  target : RequestTarget
  headers : List (String × String) := []
  /-- the address from which the request came -/
  peer : Option String := none
  deriving DecidableEq, Repr

namespace Message

/-- Whether a character may stand in the name of a method or a header. -/
def inToken (c : Char) : Bool :=
  c.isAlphanum || c ∈ ['!', '#', '$', '%', '&', '\'', '*', '+', '-', '.', '^', '_', Char.ofNat 0x60,
    '|', '~']

/-- Whether a text may be the name of a method or a header. -/
def isToken (text : String) : Bool :=
  text ≠ "" && text.toList.all inToken

/-- The most characters that the name of a header has. -/
def longestName : Nat := 65535

/-- Whether a character may stand in the value of a header. -/
def inValue (c : Char) : Bool :=
  (32 ≤ c.toNat && c.toNat ≠ 127) || c = '\t'

/-- Whether a character is among those that every reader of headers understands. -/
def isVisible (c : Char) : Bool :=
  (32 ≤ c.toNat && c.toNat < 127) || c = '\t'

/-- A header with its name in small letters, if name and value may stand in one. -/
def header? (name value : String) : Option (String × String) :=
  if isToken name && name.length ≤ longestName && value.toList.all inValue then
    some (.ofList (name.toList.map Char.toLower), value)
  else none

/-- A message, if all of its parts are well formed. -/
def make? (method target : String) (headers : List (String × String)) (peer : Option String) :
    Option Message := do
  let target ← RequestTarget.parse? target
  let headers ← headers.mapM fun (name, value) => header? name value
  if isToken method then some { method, target, headers, peer } else none

/-- The value of a header as a text; the first one if there are several. -/
def header (m : Message) (name : String) : Option String :=
  (m.headers.lookup name).filter fun value => value.toList.all isVisible

end Message

/-! ## Addresses of peers -/

/-- Eight groups of an address as a text. An address that stands for one of the
    older kind shows it. -/
def addressText (groups : List Nat) : String :=
  match groups with
  | [0, 0, 0, 0, 0, 0xFFFF, high, low] => "::ffff:" ++ Url.ipv4Text (high * 65536 + low)
  | _ => Url.ipv6Text groups

/-- The address of a peer that is given with its port, without the port. -/
def peerAddress? (peer : String) : Option String :=
  match peer.toList with
  | '[' :: rest =>
    let (address, _) := rest.span fun c => c ≠ ']' && c ≠ '%'
    (Url.ipv6? address).map addressText
  | cs =>
    let address := cs.takeWhile (· ≠ ':')
    match (address.splitOn '.').mapM Url.plainOctet with
    | some [_, _, _, _] => some (.ofList address)
    | _ => none

/-! ## Replies -/

/-- What stands in a reply. -/
inductive Body where
  | text (content : String)
  | json (content : Json)

/-- What goes back to the client. -/
structure Reply where
  status : Nat
  contentType : Option String := none
  body : Body := .text ""

namespace Reply

/-- The reply as the method asks for it: to `HEAD` nothing but the head. -/
def toMethod (r : Reply) (method : String) : Reply :=
  if method = "HEAD" then { r with body := .text "" } else r

/-- A reply in JSON. -/
def json (status : Nat) (content : Json) : Reply :=
  { status, contentType := some "application/json", body := .json content }

/-- A reply in plain text. -/
def plain (status : Nat) (content : String) : Reply :=
  { status, contentType := some "text/plain; charset=utf-8", body := .text content }

end Reply

end Roster.Http
