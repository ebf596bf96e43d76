import Roster.Url.Form

/-!
# Addresses

An address in its parts, each as it is written. The path is either a list of segments, between which
slashes stand, or an opaque text. Segments can be added to the first kind, and pairs to the query.
-/

namespace Roster

/-- What an address leads to within its host. -/
inductive Path where
  | segments (parts : List String)
  | opaqueText (text : String)
  deriving DecidableEq, Repr

/-- An address, part by part. -/
structure Url where
  scheme : String
  username : String := ""
  password : String := ""
  host : Option String := none
  port : Option Nat := none
  path : Path
  query : Option String := none
  fragment : Option String := none
  deriving DecidableEq, Repr

namespace Url

/-- The schemes whose addresses always have a host and whose paths are never empty, with the ports
    that need not be written. -/
def specialSchemes : List (String × Option Nat) :=
  [("http", some 80), ("https", some 443), ("ws", some 80), ("wss", some 443), ("ftp", some 21),
    ("file", none)]

/-- The schemes whose addresses have a host and a path of segments. -/
def isSpecialScheme (scheme : String) : Bool :=
  (specialSchemes.lookup scheme).isSome

/-- The port that goes without saying. -/
def defaultPort (scheme : String) : Option Nat :=
  (specialSchemes.lookup scheme).join

/-- The scheme of an address is a special one. -/
def isSpecial (u : Url) : Bool :=
  isSpecialScheme u.scheme

/-- The path in writing. -/
def pathText (u : Url) : String :=
  match u.path with
  | .segments parts => String.join (parts.map ("/" ++ ·))
  | .opaqueText text => text

/-- The user name and the password with the sign that follows them. -/
def credentials (u : Url) : String :=
  if u.username = "" ∧ u.password = "" then ""
  else u.username ++ (if u.password = "" then "" else ":" ++ u.password) ++ "@"

/-- Host and port with what stands before them. Without a host, a path that starts with two slashes
    is kept apart from where a host would stand. -/
def authority (u : Url) : String :=
  match u.host with
  | some host =>
    "//" ++ u.credentials ++ host ++ (match u.port with
      | some port => ":" ++ toString port
      | none => "")
  | none =>
    match u.path with
    | .segments ("" :: _ :: _) => "/."
    | _ => ""

/-- An address in writing. -/
def render (u : Url) : String :=
  u.scheme ++ ":" ++ u.authority ++ u.pathText ++
    (match u.query with
      | some query => "?" ++ query
      | none => "") ++
    (match u.fragment with
      | some fragment => "#" ++ fragment
      | none => "")

/-! ## Adding segments -/

/-- Whether a character is dropped wherever it stands in an address. -/
def isDropped (c : Char) : Bool :=
  c = '\t' || c = '\n' || c = '\r'

/-- Puts a segment at the end of a path; a path that is a single slash is filled first. -/
def append (parts : List String) (segment : String) : List String :=
  if parts = [""] then [segment] else parts ++ [segment]

/-- Adds one segment. A segment of one or two points is left out; one that only shows itself to be
    such when blanks are dropped stays where it is, or leads back by one. -/
def addSegment (special : Bool) (parts : List String) (segment : String) : List String :=
  if segment = "." ∨ segment = ".." then parts
  else
    let written := String.ofList (encodeWith (inSegment special)
      (segment.toList.filter fun c => !isDropped c))
    if written = "." then append parts ""
    else if written = ".." then parts.dropLast ++ [""]
    else append parts written

/-- Adds segments to the path, in the place of a last one that is empty. An opaque path takes
    none. -/
def extend (u : Url) (segments : List String) : Url :=
  match u.path with
  | .opaqueText _ => u
  | .segments parts =>
    let parts := if 1 < parts.length ∧ parts.getLast? = some "" then parts.dropLast else parts
    { u with path := .segments (segments.foldl (addSegment u.isSpecial) parts) }

/-! ## Adding pairs -/

/-- Adds a pair to the query, behind all others. -/
def addPair (u : Url) (name value : String) : Url :=
  let pair := String.ofList (formPair name value)
  { u with query := some (match u.query with
      | none | some "" => pair
      | some query => query ++ "&" ++ pair) }

/-- The pairs of the query. -/
def pairs (u : Url) : List (String × String) :=
  formPairs (u.query.getD "").toList

end Url

end Roster
