import Roster.Time.Instant

/-!
# Load

What the server knows about its load when a request arrives: the number of requests in flight
against the number it is sized for, and the number of requests of each client within a window that
starts with the client's first request.
-/

namespace Roster

/-- How much load is allowed. -/
structure LoadLimits where
  /-- concurrent queries -/
  capacity : Nat := 1000
  /-- the length of a client's window in seconds -/
  windowSeconds : Nat := 60
  /-- requests of one client within a window -/
  clientRequests : Nat := 120
  deriving DecidableEq, Repr

/-- What a query is told about the load when it begins. -/
structure LoadSignal where
  /-- requests in flight against the capacity, between zero and one -/
  utilization : Float
  capacityExhausted : Bool
  clientRateExceeded : Bool

/-- The requests of one client in its current window. The count has 32 bits. -/
structure ClientCount where
  address : String
  opened : Instant
  count : UInt32
  deriving DecidableEq

/-- The queries in flight, and the requests of each client in its window. -/
structure LoadMonitor where
  limits : LoadLimits
  inFlight : Nat := 0
  clients : List ClientCount := []

namespace LoadMonitor

/-- Nothing has been counted yet. -/
def ofLimits (limits : LoadLimits) : LoadMonitor :=
  { limits }

/-- The number of concurrent queries that counts as full, at least one. -/
def capacity (m : LoadMonitor) : Nat :=
  max m.limits.capacity 1

/-- One query more is in flight. -/
def enter (m : LoadMonitor) : LoadMonitor :=
  { m with inFlight := m.inFlight + 1 }

/-- One query less is in flight. -/
def leave (m : LoadMonitor) : LoadMonitor :=
  { m with inFlight := m.inFlight - 1 }

/-- The window of a client is over. -/
def expired (m : LoadMonitor) (now : Instant) (c : ClientCount) : Bool :=
  c.opened.nanos + m.limits.windowSeconds * nanosPerSecond ≤ now.nanos

/-- The requests that a client has made in its current window. -/
def countOf (m : LoadMonitor) (now : Instant) (address : String) : Option ClientCount :=
  m.clients.find? fun c => c.address = address && !m.expired now c

/-- Counts a request of a client; a client whose window has passed starts a new one. -/
def countRequest (m : LoadMonitor) (now : Instant) (address : String) : UInt32 × LoadMonitor :=
  let counted : ClientCount :=
    match m.countOf now address with
    | some c => { c with count := c.count + 1 }
    | none => { address, opened := now, count := 1 }
  (counted.count, { m with clients := counted :: m.clients.filter fun c => c.address ≠ address })

/-- The signal, once it is known whether the client has come too often. -/
def signalWith (m : LoadMonitor) (clientRateExceeded : Bool) : LoadSignal where
  utilization :=
    let share := m.inFlight.toUInt64.toFloat / m.capacity.toUInt64.toFloat
    if 1.0 < share then 1.0 else share
  capacityExhausted := m.capacity < m.inFlight
  clientRateExceeded

/-- The load that a request of a client sees, which counts the request; a client without an address
    is never over its rate. -/
def signal (m : LoadMonitor) (now : Instant) (client : Option String) : LoadSignal × LoadMonitor :=
  match client with
  | none => (m.signalWith false, m)
  | some address =>
    let (count, m) := m.countRequest now address
    (m.signalWith (m.limits.clientRequests < count.toNat), m)

end LoadMonitor

end Roster
