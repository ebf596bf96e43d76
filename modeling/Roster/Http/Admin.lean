import Roster.Http.Status

/-!
# The admin endpoints

Two paths tell whether the process lives and whether it is ready to serve. The method does not
matter, and neither does the query of the address.
-/

namespace Roster.Http

/-- The answer of the admin listener to a path: a status and a body. -/
def adminRoute (ready : Bool) (path : String) : Nat × String :=
  if path = "/health" then (200, "ok\n")
  else if path = "/ready" then
    if ready then (200, "ok\n") else (503, plainBody 503)
  else (404, plainBody 404)

/-- The path of an address, without its query. -/
def pathOf (address : String) : String :=
  String.ofList (address.toList.takeWhile (· ≠ '?'))

/-- What a client of the admin listener receives. The answer to `HEAD` has no body. -/
def adminAnswer (ready : Bool) (method address : String) : Nat × String :=
  let (status, body) := adminRoute ready (pathOf address)
  (status, if method = "HEAD" then "" else body)

end Roster.Http
