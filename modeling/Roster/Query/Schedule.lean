import Roster.Metrics
import Roster.Query.Load
import Roster.Query.Pacing
import Roster.Query.Token
import Roster.Url.Basic

/-!
# Scheduling the next request

Every client is told when to come back and where to: from an instant on, until another one, at an
address that leads to the same service again. A client with an API key finds a token in that address
which is valid just in that window. Under abnormal load the client is told only that.
-/

namespace Roster

/-- The window in which a client is expected, and the address to use. -/
structure NextRequest where
  notBefore : Instant
  expires : Instant
  url : String
  deriving DecidableEq, Repr

/-- What a client is told about its next request, and why it is told nothing else. -/
structure Schedule where
  next : NextRequest
  throttle : Option ThrottleReason
  deriving DecidableEq, Repr

/-- What sends clients away until their next request. -/
structure Scheduler where
  pacing : Pacing
  signer : Signer
  base : Url
  math : Elementary

namespace Scheduler

/-- Why the load forbids to answer a request: the server comes before the client. -/
def throttleOf (load : LoadSignal) : Option ThrottleReason :=
  if load.capacityExhausted then some .capacityExhausted
  else if load.clientRateExceeded then some .clientRateExceeded
  else none

/-- The address at which a client asks for a service again. -/
def nextUrl (s : Scheduler) (service : String) (apiKey : Option String)
    (notBefore expires : Instant) : Url :=
  let url := s.base.extend ["v2", "query", service]
  match apiKey with
  | none => url
  | some key =>
    (url.addPair "key" key).addPair "access_token" (s.signer.mint key notBefore expires)

/-- The utilization that decides how long a client waits: a client that is turned away waits as if
    the server were full. -/
def effectiveUtilization (load : LoadSignal) : Float :=
  if (throttleOf load).isSome then 1.0 else load.utilization

/-- When and where a client is to come back, and whether it gets targets now. -/
def schedule (s : Scheduler) (c : Priority) (now : Instant) (load : LoadSignal)
    (service : String) (apiKey : Option String) (d : Dice) : Schedule × Dice :=
  let (wait, d) := s.pacing.draw s.math c (effectiveUtilization load) d
  let notBefore := now.saturatingAdd wait
  let expires := notBefore.saturatingAdd (.ofSeconds s.pacing.validitySeconds)
  ({ next := { notBefore, expires, url := (s.nextUrl service apiKey notBefore expires).render }
     throttle := throttleOf load }, d)

end Scheduler

end Roster
