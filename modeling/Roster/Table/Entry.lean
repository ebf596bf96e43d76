import Roster.Json.Reader
import Roster.Json.Writer
import Roster.Table.Key
import Roster.Table.Row

/-!
# Entries of the rate table

An entry is a row that passed validation: its key can be written, its probability lies between zero
and one, its request count is not negative, and its coordinates are finite numbers. `Entry.ofRow`
names the first fault of a row; `Entry.encode` and `Entry.decode` are the form in which entries are
kept in the backends, which is the row's form.
-/

namespace Roster

/-! ## Address families -/

/-- The version of the protocol that an address belongs to. -/
inductive AddressFamily where
  | ipv4
  | ipv6
  deriving DecidableEq, Repr

/-- The name of a family. -/
def AddressFamily.label : AddressFamily → String
  | .ipv4 => "ipv4"
  | .ipv6 => "ipv6"

/-- The family with a name. -/
def AddressFamily.parse? : String → Option AddressFamily
  | "ipv4" => some .ipv4
  | "ipv6" => some .ipv6
  | _ => none

/-- What is said about a text that names no address family. -/
def AddressFamily.parseMessage (text : String) : String :=
  "unknown address family '" ++ text ++ "'"

/-! ## Entries -/

/-- A place on the earth, in degrees. -/
structure Location where
  latitude : Float
  longitude : Float

/-- A target for a path under a policy, and with what chance it is chosen. -/
structure Entry where
  key : Key
  family : Option AddressFamily
  format : String
  latitude : Option Float
  longitude : Option Float
  metro : String
  probability : Float
  requestsPerDay : Nat

namespace Entry

/-- One of the two numbers of a place. -/
inductive Axis where
  | latitude
  | longitude
  deriving DecidableEq, Repr

/-- The name of an axis. -/
def Axis.label : Axis → String
  | .latitude => "latitude"
  | .longitude => "longitude"

/-- What is wrong with a row. -/
inductive Fault where
  | key (fault : Key.Fault)
  | probability (p : Float)
  | negativeRequests (n : Int)
  | family (text : String)
  | coordinate (axis : Axis) (text : String)

/-- What is said about a row. -/
def Fault.message : Fault → String
  | .key fault => fault.message
  | .probability p => "probability " ++ Decimal.plainText p ++ " outside [0, 1]"
  | .negativeRequests n => "requests_per_day " ++ (Decimal.Numeral.ofInt n).text ++ " is negative"
  | .family text => AddressFamily.parseMessage text
  | .coordinate axis text => axis.label ++ " '" ++ text ++ "' is not a coordinate"

/-- A refused row: the key it would have had, and its first fault. -/
structure Malformed where
  key : Key
  fault : Fault

/-- What is said about a row, after the key that it would have. -/
def Malformed.message (m : Malformed) : String :=
  "malformed entry " ++ m.key.render ++ ": " ++ m.fault.message

/-- The value of a coordinate's text; an empty text is no coordinate. -/
def readCoordinate (axis : Axis) (text : String) : Except Fault (Option Float) :=
  if text = "" then .ok none
  else
    match Decimal.read? text with
    | some x => if x.isFinite then .ok (some x) else .error (.coordinate axis text)
    | none => .error (.coordinate axis text)

/-- The address family that a text names; an empty text names none. -/
def readFamily (text : String) : Except Fault (Option AddressFamily) :=
  if text = "" then .ok none
  else
    match AddressFamily.parse? text with
    | some family => .ok (some family)
    | none => .error (.family text)

/-- The entry of a row, or the row's first fault. The checks are made in the order of the text. -/
def check (r : Row) : Except Fault Entry := do
  if let some fault := r.key.fault? then
    throw (.key fault)
  if !(0.0 ≤ r.probability && r.probability ≤ 1.0) then
    throw (.probability r.probability)
  if r.requestsPerDay < 0 then
    throw (.negativeRequests r.requestsPerDay)
  let family ← readFamily r.family
  let latitude ← readCoordinate .latitude r.latitude
  let longitude ← readCoordinate .longitude r.longitude
  pure {
    key := r.key, family, format := r.format, latitude, longitude, metro := r.metro,
    probability := r.probability, requestsPerDay := r.requestsPerDay.toNat }

/-- The entry of a row, if nothing is wrong with it. -/
def ofRow (r : Row) : Except Malformed Entry :=
  (check r).mapError fun fault => ⟨r.key, fault⟩

/-- A coordinate as a row has it, where the empty text stands for none. -/
def coordinateText : Option Float → String
  | none => ""
  | some x => Decimal.plainText x

/-- The row of an entry. More requests than 63 bits can hold are cut off. -/
def toRow (e : Entry) : Row where
  family := (e.family.map AddressFamily.label).getD ""
  format := e.format
  latitude := coordinateText e.latitude
  longitude := coordinateText e.longitude
  metro := e.metro
  policy := e.key.policy
  path := e.key.path
  probability := e.probability
  requester := e.key.requester
  requestsPerDay := min e.requestsPerDay (Nat.pow 2 63 - 1)
  target := e.key.target

/-- The place of the endpoint when both coordinates are known. -/
def location? (e : Entry) : Option Location :=
  match e.latitude, e.longitude with
  | some latitude, some longitude => some { latitude, longitude }
  | _, _ => none

/-- Whether two entries agree in everything, doubles compared as numbers. -/
def sameContent (a b : Entry) : Bool :=
  a.key == b.key && a.family == b.family && a.format == b.format && a.latitude == b.latitude &&
    a.longitude == b.longitude && a.metro == b.metro && a.probability == b.probability &&
    a.requestsPerDay == b.requestsPerDay

/-- Whether a requester pattern covers a client. An empty pattern and `*` cover every client, a
    pattern that ends in `*` covers the addresses that start with the rest of it, any other pattern
    covers itself; a client without an address is covered by the first kind alone. -/
def covers (pattern : String) (client : Option String) : Bool :=
  if pattern = "" ∨ pattern = "*" then true
  else
    match client with
    | none => false
    | some address =>
      if pattern.toList.getLast? = some '*' then
        pattern.toList.dropLast.isPrefixOf address.toList
      else address = pattern

/-- An entry is meant for a client. -/
def matchesRequester (e : Entry) (client : Option String) : Bool :=
  covers e.key.requester client

/-! ## The stored form -/

/-- The octets of an entry in a backend. -/
def encode (e : Entry) : ByteArray :=
  (Json.write e.toRow.toJson).toUTF8

/-- Why octets are no entry: they are not the form of a row, or the row is malformed. -/
inductive DecodeError where
  | notARow
  | malformed (m : Malformed)

/-- The message of a decoding error; about a form that is not a row there is
    nothing fixed to say. -/
def DecodeError.message? : DecodeError → Option String
  | .notARow => none
  | .malformed m => some ("encoding error: " ++ m.message)

/-- The entry that octets hold. The row is judged before anything that follows it. -/
def decode (octets : ByteArray) : Except DecodeError Entry :=
  match Json.value (Json.symbols octets) with
  | none => .error .notARow
  | some (j, rest) =>
    match Row.ofTree? j with
    | none => .error .notARow
    | some row =>
      match ofRow row with
      | .error m => .error (.malformed m)
      | .ok e => if Json.isEnd rest then .ok e else .error .notARow

end Entry

end Roster
