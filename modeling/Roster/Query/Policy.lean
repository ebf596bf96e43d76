/-!
# Selection policies

A query names the policy by which its targets are chosen. The rate table lists candidates under
three policies; two further ones choose among the candidates of `geo_options`.
-/

namespace Roster

/-- How targets are chosen among those that fit. -/
inductive Policy where
  /-- the nearest target -/
  | geo
  /-- several nearby targets to choose from -/
  | geoOptions
  /-- any one target -/
  | random
  /-- one target in the client's metro -/
  | metro
  /-- every target -/
  | all
  deriving DecidableEq, Repr

namespace Policy

/-- The name of a policy. -/
def label : Policy → String
  | .geo => "geo"
  | .geoOptions => "geo_options"
  | .random => "random"
  | .metro => "metro"
  | .all => "all"

/-- The policy with a name. -/
def parse? : String → Option Policy
  | "geo" => some .geo
  | "geo_options" => some .geoOptions
  | "random" => some .random
  | "metro" => some .metro
  | "all" => some .all
  | _ => none

/-- What is said about a name that no policy has. -/
def parseMessage (text : String) : String :=
  "unknown policy '" ++ text ++ "'"

/-- The policy of a request that names none. -/
def standard : Policy := .geoOptions

/-- The name under which the rate table lists the candidates of a policy. -/
def tableName : Policy → String
  | .geo => "geo"
  | .random => "random"
  | .geoOptions | .metro | .all => "geo_options"

end Policy

end Roster
