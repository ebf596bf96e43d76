/-!
# Keys of the rate table

A row of the rate table is identified by four texts: the requesters it is meant for, the path of the
service, the policy it is listed under, and the address of the target. The key's written form joins
them with `#`. `Key.parse?` reads exactly the written forms of keys whose fields hold no separator
and whose path and target are not empty.
-/

namespace Roster

/-- What identifies a row of the rate table. The derived order compares field by field, each field
    by its code points, which is also the order of the UTF-8 octets. -/
structure Key where
  /-- the pattern of requesters that the row is meant for -/
  requester : String
  path : String
  policy : String
  target : String
  deriving DecidableEq, Ord, Hashable, Repr, Inhabited

namespace Key

/-- One of the four parts of a key. -/
inductive Part where
  | requester
  | path
  | policy
  | target
  deriving DecidableEq, Repr

/-- The name of a part. -/
def Part.label : Part → String
  | .requester => "requester_ip"
  | .path => "path"
  | .policy => "policy"
  | .target => "target_ip"

/-- A part of a key. -/
def get (k : Key) : Part → String
  | .requester => k.requester
  | .path => k.path
  | .policy => k.policy
  | .target => k.target

/-- What is wrong with a key. -/
inductive Fault where
  | separatorIn (part : Part)
  | emptyPath
  | emptyTarget
  deriving DecidableEq, Repr

/-- What is said about a key. -/
def Fault.message : Fault → String
  | .separatorIn part => part.label ++ " contains '#'"
  | .emptyPath => "path is empty"
  | .emptyTarget => "target_ip is empty"

/-- The character between the parts of a written key. -/
def separator : Char := '#'

/-- The first fault of a key: separators in the order of the parts, then missing parts. -/
def fault? (k : Key) : Option Fault :=
  match [Part.requester, .path, .policy, .target].find? fun p => separator ∈ (k.get p).toList with
  | some p => some (.separatorIn p)
  | none =>
    if k.path = "" then some .emptyPath
    else if k.target = "" then some .emptyTarget
    else none

/-- A key in writing. -/
def render (k : Key) : String :=
  k.requester ++ "#" ++ k.path ++ "#" ++ k.policy ++ "#" ++ k.target

/-- The key with the given written form, if there is one. -/
def parse? (text : String) : Option Key :=
  match text.toList.splitOn separator with
  | [requester, path, policy, target] =>
    let k : Key := ⟨.ofList requester, .ofList path, .ofList policy, .ofList target⟩
    if k.fault?.isNone then some k else none
  | _ => none

/-- What is said about a text that is no key. -/
def parseMessage (text : String) : String :=
  "invalid entry key: " ++ text

/-- Whether one key stands before another or is the same. -/
def le (a b : Key) : Bool :=
  compare a b != .gt

end Key

end Roster
