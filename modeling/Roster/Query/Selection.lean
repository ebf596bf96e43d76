import Roster.Query.Distance
import Roster.Query.Policy
import Roster.Query.Random

/-!
# Selecting targets

From the candidates of a service those are eligible that are meant for the client's address, have
its address family and, under the metro policy, its metro. `all` lists them; the other policies walk
through them in random order, the nearest first where the place of the client is known and the
policy asks for it, and take each with its probability until enough are taken. If chance refuses
every one, one is drawn in proportion to the probabilities, so an eligible entry of positive
probability is never left out for nothing.
-/

namespace Roster

/-- What is known about a client. -/
structure Client where
  address : Option String := none
  location : Option Location := none
  metro : Option String := none
  family : Option AddressFamily := none

/-- How targets are chosen. -/
structure Selector where
  /-- the number of targets that `geo_options` offers at most -/
  maxResults : Nat
  math : Elementary

namespace Selector

/-- Compares texts without regard to the case of the letters `a` to `z`. -/
def sameIgnoringCase (a b : String) : Bool :=
  a.toList.map Char.toLower == b.toList.map Char.toLower

/-- Whether an entry can serve a client's address family. An entry without a family serves every
    client. -/
def familyFits (client : Client) (e : Entry) : Bool :=
  match client.family, e.family with
  | some wanted, some family => wanted = family
  | _, _ => true

/-- Whether an entry stands in the client's metro, if the policy asks for that. -/
def metroFits (policy : Policy) (client : Client) (e : Entry) : Bool :=
  match policy with
  | .metro =>
    match client.metro with
    | some metro => sameIgnoringCase e.metro metro
    | none => false
  | _ => true

/-- Whether an entry may be selected at all, its probability apart. -/
def eligible (policy : Policy) (client : Client) (e : Entry) : Bool :=
  e.matchesRequester client.address && familyFits client e && metroFits policy client e

/-- Whether one entry is to be tried before another or at the same time: known places before unknown
    ones, and near ones before far ones. -/
def nearerOrSame (m : Elementary) (origin : Location) (a b : Entry) : Bool :=
  match a.location?, b.location? with
  | some a, some b => !(origin.distance m b < origin.distance m a)
  | some _, none => true
  | none, some _ => false
  | none, none => true

/-- The order in which entries are tried. Only the policies of nearness care, and only if the place
    of the client is known. -/
def arrange (s : Selector) (policy : Policy) (client : Client) (entries : List Entry) :
    List Entry :=
  match policy, client.location with
  | .geo, some origin | .geoOptions, some origin =>
    entries.mergeSort (nearerOrSame s.math origin)
  | _, _ => entries

/-- The number of entries that a policy offers at most, `all` apart. -/
def wanted (s : Selector) : Policy → Nat
  | .geoOptions => max s.maxResults 1
  | _ => 1

/-- Takes each entry with its probability until `wanted` are taken. -/
def walk : Nat → List Entry → Dice → List Entry × Dice
  | 0, _, d => ([], d)
  | _, [], d => ([], d)
  | n + 1, e :: rest, d =>
    let (x, d) := d.nextUnit
    if x < e.probability then
      let (taken, d) := walk n rest d
      (e :: taken, d)
    else walk (n + 1) rest d

/-- The sum of the probabilities, from left to right. -/
def totalProbability (entries : List Entry) : Float :=
  entries.foldl (fun total e => total + e.probability) 0.0

/-- The entry at a point of the line on which the probabilities of the entries are laid end to end;
    beyond the end of the line it is the last one. Entries of probability zero take no room. -/
def entryAt : Float → Option Entry → List Entry → Option Entry
  | _, last, [] => last
  | point, last, e :: rest =>
    if 0.0 < e.probability then
      if point < e.probability then some e else entryAt (point - e.probability) (some e) rest
    else entryAt point last rest

/-- One entry with a chance in proportion to its probability. -/
def weightedPick (entries : List Entry) (d : Dice) : Option Entry × Dice :=
  let total := totalProbability entries
  if total ≤ 0.0 then (none, d)
  else
    let (x, d) := d.nextUnit
    (entryAt (x * total) none entries, d)

/-- All entries that have a chance, by their keys. -/
def listing (entries : List Entry) : List Entry :=
  (entries.filter fun e => 0.0 < e.probability).mergeSort fun a b => a.key.le b.key

/-- The entries that a client is offered. -/
def select (s : Selector) (policy : Policy) (candidates : List Entry) (client : Client) (d : Dice) :
    List Entry × Dice :=
  let entries := candidates.filter (eligible policy client)
  match policy with
  | .all => (listing entries, d)
  | _ =>
    if policy = .metro ∧ client.metro.isNone then ([], d)
    else
      let (shuffled, d) := d.shuffle entries
      let arranged := s.arrange policy client shuffled
      let (taken, d) := walk (s.wanted policy) arranged d
      if taken.isEmpty then
        let (pick, d) := weightedPick arranged d
        (pick.toList, d)
      else (taken, d)

end Selector

end Roster
