/-!
# Priority classes

A request with an accepted API key goes before one without, and among those with a key the ones that
also present a valid access token go first. A token never counts without a key, and a bad token
never turns a request away.
-/

namespace Roster

/-- The class of a request, by what the client has shown. -/
inductive Priority where
  /-- an API key and a valid token: the pool that is kept available -/
  | highAvailability
  /-- an API key alone -/
  | bestEffort
  /-- neither -/
  | global
  deriving DecidableEq, Repr

namespace Priority

/-- The class of a client. A token without a key is worth nothing. -/
def classify (hasKey tokenPresent tokenValid : Bool) : Priority :=
  if !hasKey then .global
  else if tokenPresent && tokenValid then .highAvailability
  else .bestEffort

/-- The name of a class. -/
def label : Priority → String
  | .highAvailability => "api_key_high_availability"
  | .bestEffort => "api_key_best_effort"
  | .global => "global_best_effort"

/-- All classes, the most urgent first. -/
def all : List Priority :=
  [.highAvailability, .bestEffort, .global]

/-- The class with a name. -/
def ofLabel? (text : String) : Option Priority :=
  all.find? fun p => p.label = text

/-- The place of a class among all. -/
def rank : Priority → Nat
  | .highAvailability => 0
  | .bestEffort => 1
  | .global => 2

end Priority

end Roster
