/-!
# Request targets

What the first line of a request asks for: a path with a query, an absolute address, a host alone,
or a star. Only the path and the query count. The characters that may stand in each part are
checked, but nothing is decoded; characters beyond ASCII pass, and a fragment is dropped.
-/

namespace Roster.Http

/-- What a request is about, as far as anybody asks for it: the host is left out. -/
structure RequestTarget where
  path : String
  query : Option String := none
  deriving DecidableEq, Repr

namespace RequestTarget

/-! ## Paths and queries -/

/-- The characters that may stand in a path. -/
def inPath (c : Char) : Bool :=
  let n := c.toNat
  n = 0x21 || n = 0x22 || (0x24 ≤ n && n ≤ 0x3B) || n = 0x3D || (0x40 ≤ n && n ≤ 0x5F) ||
    0x61 ≤ n

/-- The characters that may stand in a query. -/
def inQuery (c : Char) : Bool :=
  let n := c.toNat
  n = 0x21 || (0x24 ≤ n && n ≤ 0x3B) || n = 0x3D || 0x3F ≤ n

/-- The path and the query of a text that has nothing before them. -/
def pathAndQuery (cs : List Char) : Option RequestTarget :=
  let cs := cs.takeWhile (· ≠ '#')
  let (path, rest) := cs.span (· ≠ '?')
  let query := rest.drop 1
  if path.all inPath && query.all inQuery then
    some {
      path := if path.isEmpty then "/" else .ofList path
      query := if rest.isEmpty then none else some (.ofList query) }
  else none

/-! ## Hosts -/

/-- Whether a character may stand in an address at all. -/
def inAddress (c : Char) : Bool :=
  c.isAlphanum ||
    c ∈ ['!', '#', '$', '&', '\'', '(', ')', '*', '+', ',', '-', '.', '/', ':', ';', '=', '?', '@',
      '[', ']', '_', '~']

/-- What has been seen of a host, character by character. -/
structure HostScan where
  /-- the colons that may stand before a port -/
  colons : Nat := 0
  opened : Bool := false
  closed : Bool := false
  percent : Bool := false
  /-- whether the last character was an at sign -/
  endsInAt : Bool := false
  deriving DecidableEq, Repr

/-- Takes a character of a host. What stands before an at sign, or in brackets, is no port and may
    hold percent signs. -/
def HostScan.take (s : HostScan) (c : Char) : Option HostScan :=
  let s := { s with endsInAt := false }
  if c = ':' then if 8 ≤ s.colons then none else some { s with colons := s.colons + 1 }
  else if c = '[' then if s.percent || s.opened then none else some { s with opened := true }
  else if c = ']' then
    if !s.opened || s.closed then none
    else some { s with closed := true, colons := 0, percent := false }
  else if c = '@' then some { s with colons := 0, percent := false, endsInAt := true }
  else if c = '%' then some { s with percent := true }
  else if inAddress c then some s
  else none

/-- What has been seen is a whole host. -/
def HostScan.complete (s : HostScan) : Bool :=
  s.opened = s.closed && s.colons ≤ 1 && !s.endsInAt && !s.percent

/-- The characters with which something else begins after a host. -/
def endsHost (c : Char) : Bool :=
  c = '/' || c = '?' || c = '#'

/-- The host at the start of a text, and what follows it. -/
def takeHost (cs : List Char) : Option (List Char × List Char) := do
  let (host, rest) := cs.span fun c => !endsHost c
  let s ← host.foldlM HostScan.take {}
  if s.complete then some (host, rest) else none

/-- A target that is a host and nothing more, and has no path. -/
def hostAlone (cs : List Char) : Option RequestTarget := do
  let (_, rest) ← takeHost cs
  if rest.isEmpty then some { path := "" } else none

/-! ## Schemes -/

/-- The characters of a scheme. -/
def inScheme (c : Char) : Bool :=
  c.isAlphanum || c = '+' || c = '-' || c = '.'

/-- The most characters that a scheme has. -/
def longestScheme : Nat := 64

/-- The scheme at the start of a text, and what follows the slashes after it. -/
def takeScheme (cs : List Char) : Option (List Char × List Char) :=
  match cs.span inScheme with
  | (scheme, ':' :: '/' :: '/' :: rest) => some (scheme, rest)
  | _ => none

/-! ## Targets -/

/-- The most octets that a target has. -/
def longest : Nat := 65534

/-- What follows a scheme: a host, which has to be there, and a path. -/
def absolute (cs : List Char) : Option RequestTarget := do
  let (host, rest) ← takeHost cs
  if host.isEmpty then none else pathAndQuery rest

/-- The target that a text is, in one of its forms: a path, a whole address, a host, or a star. -/
def parse? (text : String) : Option RequestTarget :=
  if longest < text.utf8ByteSize then none
  else
    match text.toList with
    | [] => none
    | ['*'] => some { path := "*" }
    | '/' :: rest => pathAndQuery ('/' :: rest)
    | [c] => hostAlone [c]
    | cs =>
      match takeScheme cs with
      | some (scheme, rest) => if longestScheme < scheme.length then none else absolute rest
      | none => hostAlone cs

end RequestTarget

end Roster.Http
