import Roster.Url.Basic
import Roster.Url.Host

/-!
# Reading addresses

An absolute address is taken apart from the front: the scheme up to its colon, then, where slashes
follow, credentials, host and port, then path, query and fragment. Blanks and control characters
around it do not count, nor do tabs and line breaks within. Segments of one and two points are
resolved. What is not allowed in a part is percent-encoded.
-/

namespace Roster.Url

/-- What counts of a text: blanks around it do not, and neither do line breaks and tabs within. -/
def significant (text : String) : List Char :=
  let outer (c : Char) : Bool := c.toNat ≤ 32
  let trimmed := ((text.toList.dropWhile outer).reverse.dropWhile outer).reverse
  trimmed.filter fun c => !isDropped c

/-- The scheme in lower case, and what follows its colon. -/
def takeScheme (cs : List Char) : Option (String × List Char) :=
  let (scheme, rest) := cs.span fun c => c.isAlphanum || c = '+' || c = '-' || c = '.'
  match scheme, rest with
  | c :: _, ':' :: rest =>
    if c.isAlpha then some (.ofList (scheme.map Char.toLower), rest) else none
  | _, _ => none

/-- A slash, which may lean backwards in special schemes. -/
def isSlash (special : Bool) (c : Char) : Bool :=
  c = '/' || (special && c = '\\')

/-- The characters with which something else begins after an authority. -/
def endsAuthority (special : Bool) (c : Char) : Bool :=
  isSlash special c || c = '?' || c = '#'

/-! ## Paths -/

/-- A segment that stands for the place where it is. -/
def isDot (segment : String) : Bool :=
  segment ∈ [".", "%2e", "%2E"]

/-- A segment that leads one up. -/
def isDotDot (segment : String) : Bool :=
  segment ∈ ["..", "%2e%2e", "%2e%2E", "%2E%2e", "%2E%2E", "%2e.", "%2E.", ".%2e", ".%2E"]

/-- Whether a segment names a drive: a letter and a colon. -/
def isDrive (segment : String) : Bool :=
  match segment.toList with
  | [c, ':'] => c.isAlpha
  | _ => false

/-- Leaves out the last segment, but never a drive that stands alone. -/
def shorten (isFile : Bool) (parts : List String) : List String :=
  match parts with
  | [drive] => if isFile && isDrive drive then [drive] else []
  | _ => parts.dropLast

/-- A segment at the start of a file's path that is the letter of a drive. -/
def drive (isFile : Bool) (parts : List String) (segment : String) : String :=
  match isFile, parts, segment.toList with
  | true, [], [c, '|'] => if c.isAlpha then .ofList [c, ':'] else segment
  | _, _, _ => segment

/-- The segments that are left once those that lead nowhere and those that lead up are resolved. -/
def resolve (isFile : Bool) : List String → List String → List String
  | parts, [] => parts
  | parts, segment :: rest =>
    let parts :=
      if isDotDot segment then
        shorten isFile parts ++ (if rest.isEmpty then [""] else [])
      else if isDot segment then
        parts ++ (if rest.isEmpty then [""] else [])
      else parts ++ [drive isFile parts segment]
    resolve isFile parts rest

/-- The segments of a path that follows its first slash. -/
def segmentsOf (special isFile : Bool) (cs : List Char) : List String :=
  let raw := cs.splitOnP (isSlash special)
  resolve isFile [] (raw.map fun s => .ofList (encodeWith inPath s))

/-- A path up to its query or fragment, and what follows. -/
def takePath (special isFile : Bool) (cs : List Char) : List String × List Char :=
  let (path, rest) := cs.span fun c => c ≠ '?' && c ≠ '#'
  match path with
  | [] => (if special then [""] else [], rest)
  | c :: tail =>
    (segmentsOf special isFile (if isSlash special c then tail else path), rest)

/-- The query and the fragment, as far as there are any. -/
def takeQuery (special : Bool) (cs : List Char) : Option String × Option String :=
  let fragmentOf (cs : List Char) : Option String :=
    match cs with
    | '#' :: rest => some (.ofList (encodeWith inFragment rest))
    | _ => none
  match cs with
  | '?' :: rest =>
    let (query, rest) := rest.span (· ≠ '#')
    (some (.ofList (encodeWith (inQuery special) query)), fragmentOf rest)
  | cs => (none, fragmentOf cs)

/-! ## Credentials, host and port -/

/-- Credentials: the user name up to the first colon, and the password. -/
def credentialsOf (cs : List Char) : String × String :=
  let (name, rest) := cs.span (· ≠ ':')
  (.ofList (encodeWith inUserInfo name), .ofList (encodeWith inUserInfo (rest.drop 1)))

/-- The credentials and what follows them, if there are any. The last at sign counts. -/
def splitCredentials (authority : List Char) : Option (List Char × List Char) :=
  if '@' ∈ authority then
    let (host, before) := authority.reverse.span (· ≠ '@')
    some ((before.drop 1).reverse, host.reverse)
  else none

/-- A host up to its port, where a colon between brackets does not count, and the port's text. -/
def splitPort : Bool → List Char → List Char × Option (List Char)
  | _, [] => ([], none)
  | inside, c :: rest =>
    if c = ':' ∧ !inside then ([], some rest)
    else
      let inside := if c = '[' then true else if c = ']' then false else inside
      let (host, port) := splitPort inside rest
      (c :: host, port)

/-- A port as its number; the one that the scheme has anyway, and an empty one, are left out. -/
def portOf (scheme : String) (text : Option (List Char)) : Except ParseError (Option Nat) :=
  match text with
  | none => .ok none
  | some ds =>
    if ds.all Char.isDigit then
      let n := Nat.ofDigitChars 10 ds 0
      if 65535 < n then .error .port
      else if ds.isEmpty || some n = defaultPort scheme then .ok none
      else .ok (some n)
    else .error .port

/-- An address of which only the authority is known. -/
def takeAuthority (scheme : String) (authority : List Char) : Except ParseError Url := do
  let special := isSpecialScheme scheme
  let (username, password, hostPort) ←
    match splitCredentials authority with
    | none => pure ("", "", authority)
    | some (cs, hostPort) =>
      if hostPort.isEmpty then throw .emptyHost
      let (username, password) := credentialsOf cs
      pure (username, password, hostPort)
  let (hostText, portText) := splitPort false hostPort
  if hostText.isEmpty && (special || portText.isSome) then throw .emptyHost
  let host ← if special then domainHost hostText else opaqueHost hostText
  let port ← portOf scheme portText
  pure { scheme, username, password, host := some host, port, path := .segments [] }

/-- An address with an authority, which begins here. -/
def withAuthority (scheme : String) (cs : List Char) : Except ParseError Url := do
  let special := isSpecialScheme scheme
  let (authority, rest) := cs.span fun c => !endsAuthority special c
  let u ← takeAuthority scheme authority
  let (parts, rest) := takePath special false rest
  let (query, fragment) := takeQuery special rest
  pure { u with path := .segments parts, query, fragment }

/-! ## Schemes -/

/-- What follows the colon of a scheme without fixed rules. -/
def parseGeneric (scheme : String) (cs : List Char) : Except ParseError Url :=
  match cs with
  | '/' :: '/' :: rest => withAuthority scheme rest
  | '/' :: _ =>
    let (parts, rest) := takePath false false cs
    let (query, fragment) := takeQuery false rest
    .ok { scheme, path := .segments parts, query, fragment }
  | _ =>
    let (path, rest) := cs.span fun c => c ≠ '?' && c ≠ '#'
    let (query, fragment) := takeQuery false rest
    .ok { scheme, path := .opaqueText (.ofList (encodeWith inOpaque path)), query, fragment }

/-- The host of a file, which is mostly empty. A drive in its place belongs to the path. -/
def takeFileHost (cs : List Char) : Except ParseError (String × List Char) :=
  let (text, rest) := cs.span fun c => !endsAuthority true c
  match text with
  | [c, d] =>
    if c.isAlpha && (d = ':' || d = '|') then .ok ("", cs)
    else (domainHost text).map fun h => (if h = "localhost" then "" else h, rest)
  | [] => .ok ("", rest)
  | _ => (domainHost text).map fun h => (if h = "localhost" then "" else h, rest)

/-- Leaves out empty segments at the start of the path of a file. -/
def trimFilePath : List String → List String
  | "" :: p :: rest => trimFilePath (p :: rest)
  | parts => parts

/-- The address of a file, after the scheme. -/
def parseFile (cs : List Char) : Except ParseError Url := do
  let (host, rest) ←
    match cs with
    | a :: b :: rest =>
      if isSlash true a && isSlash true b then takeFileHost rest else pure ("", cs)
    | _ => pure ("", cs)
  let (parts, rest) := takePath true true rest
  let (query, fragment) := takeQuery true rest
  pure { scheme := "file", host := some host, path := .segments (trimFilePath parts), query,
         fragment }

/-- The address that a text is. -/
def parse (text : String) : Except ParseError Url :=
  match takeScheme (significant text) with
  | none => .error .relative
  | some (scheme, rest) =>
    if scheme = "file" then parseFile rest
    else if isSpecialScheme scheme then
      withAuthority scheme (rest.dropWhile (isSlash true))
    else parseGeneric scheme rest

end Roster.Url
