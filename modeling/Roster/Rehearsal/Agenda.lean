import Roster.Rehearsal.State

/-!
# The agenda

What happens by itself as time passes: the running cycle goes on or is cut off, and the worker takes
a tick or a command. `next?` is the earliest of these happenings, `happen` carries one out, and
`pass` and `waitUntil` carry out those that come before a time or before a condition holds.

Operations that take no time follow one another at once. Whoever waits for a time comes before what
happens by itself at that very time, and of two happenings at one time the running cycle's is first.
-/

namespace Roster.Rehearsal

/-! ## The running cycle -/

/-- The time of day in seconds, as it is written into a manifest. -/
def timeOfDay (r : Rehearsal) : UInt64 :=
  r.wall.seconds.toNat.toUInt64

/-- How long the next operation of the running cycle takes, if it ends. -/
def operationTime? (r : Rehearsal) : Option Nat :=
  match r.table.synchronizer.running with
  | some .fetching => r.source.duration?
  | some (.diffing ..) => some (r.faults.delay (.store, .keys))
  | _ => (r.table.nextWrite? r.timeOfDay).map fun write =>
    r.faults.delay (write.backend, write.operation)

/-- The next operation of the running cycle as it turns out. -/
def operation (r : Rehearsal) : Event :=
  let time := r.timeOfDay
  match r.table.synchronizer.running with
  | some .fetching => .fetched r.source.answer
  | some (.diffing ..) => .listed (r.faults.verdict (.store, .keys) "")
  | _ =>
    match r.table.nextWrite? time with
    | some write => .wrote time (r.faults.verdict (write.backend, write.operation) write.key)
    | none => .wrote time .passed

/-- The cycle that runs has come to its end, and whoever waits for it is told. -/
def conclude (r : Rehearsal) (result : CycleResult) : Rehearsal :=
  match r.underway with
  | none => r
  | some u =>
    let r := { r with underway := none }
    match u.owner with
    | .caller number => r.tell [(number, result)]
    | .worker => r.withWorker fun worker => worker.finished result

/-- Something happens to the table, and may end the cycle. -/
def befall (r : Rehearsal) (e : Event) : Rehearsal :=
  let (result, table) := r.table.step e
  let r := { r with table }
  match result with
  | none => r
  | some result => r.conclude result

/-- Carries out operations that take no time, at most `n`, up to one that does. -/
def hurry : Nat → Rehearsal → Rehearsal
  | 0, r => r
  | n + 1, r =>
    match r.underway with
    | none => r
    | some u =>
      match r.operationTime? with
      | some 0 => hurry n (r.befall r.operation)
      | time => { r with underway := some { u with due := time.map (r.clock + ·) } }

/-- Carries out operations up to one that takes time: the fetch, the listing, and the writes. -/
def goOn (r : Rehearsal) : Rehearsal :=
  let r := r.hurry 2
  r.hurry r.table.changesLeft

/-- A cycle is asked for. It may be refused. -/
def startCycle (r : Rehearsal) (owner : Owner) : Rehearsal :=
  let u : Underway := { owner, due := none, deadline := r.clock + r.cycleTimeout }
  match r.table.call with
  | (some result, table) =>
    let r := { r with table }
    match owner with
    | .caller number => r.tell [(number, result)]
    | .worker => r.withWorker fun worker => worker.finished result
  | (none, table) =>
    { r with
      table
      source := { r.source with fetches := r.source.fetches + 1 }
      underway := some u }.goOn

/-- The current operation of the running cycle is done, or its deadline has passed. -/
def cycleTurn (r : Rehearsal) (u : Underway) : Rehearsal :=
  if u.completes then (r.befall r.operation).goOn else r.befall (.expired none)

/-! ## The worker -/

/-- A tick makes the worker start a cycle. -/
def workerTick (r : Rehearsal) : Rehearsal :=
  match r.service with
  | none => r
  | some s =>
    { r with
      service := some { worker := s.worker.tick, ticker := s.ticker.take r.clock } }.startCycle
      .worker

/-- The worker takes the oldest command that waits. -/
def workerCommand (r : Rehearsal) : Rehearsal :=
  let r := r.withWorker Worker.take
  match r.service with
  | some { worker := { activity := .cycling _, .. }, .. } => r.startCycle .worker
  | _ => r

/-! ## Happenings -/

/-- What happens by itself when its time has come. -/
inductive Happening where
  | cycle (u : Underway)
  | tick
  | command
  deriving DecidableEq, Repr

/-- The earlier of two happenings, the first one if they come at the same time. -/
def earlier (a b : Option (Nat × Happening)) : Option (Nat × Happening) :=
  match a, b with
  | some a, some b => if b.1 < a.1 then some b else some a
  | some a, none => some a
  | none, b => b

/-- What happens next, and when. At the same time a cycle goes first, and a command before a
    tick. -/
def next? (r : Rehearsal) : Option (Nat × Happening) :=
  let cycle := r.underway.map fun u => (u.time, Happening.cycle u)
  let waiting := r.service.filter fun s => s.worker.activity = .waiting
  let command := (waiting.filter fun s => !s.worker.queue.isEmpty).map fun _ =>
    (r.clock, Happening.command)
  let tick := waiting.map fun s => (s.ticker.due, Happening.tick)
  earlier cycle (earlier command tick)

/-- Carries out a happening at its time, or now if that has passed. -/
def happen (r : Rehearsal) (time : Nat) (h : Happening) : Rehearsal :=
  let r := { r with clock := max r.clock time }
  match h with
  | .cycle u => r.cycleTurn u
  | .tick => r.workerTick
  | .command => r.workerCommand

/-! ## Waiting -/

/-- A number of happenings that are not exceeded within so many milliseconds: in each of them at
    most one operation ends, one deadline passes, and the worker takes a few ticks and the
    commands that wait. -/
def happeningsIn (r : Rehearsal) (span : Nat) : Nat :=
  8 * (span + 2) + (r.service.map fun s => s.worker.queue.length).getD 0

/-- Carries out what happens before a time, at most `n` happenings. -/
def passUntil : Nat → Nat → Rehearsal → Rehearsal
  | 0, time, r => { r with clock := max r.clock time }
  | n + 1, time, r =>
    match r.next? with
    | some (t, h) =>
      if t < time then passUntil n time (r.happen t h)
      else { r with clock := max r.clock time }
    | none => { r with clock := max r.clock time }

/-- Lets time pass, with everything that happens in it. -/
def pass (r : Rehearsal) (span : Nat) : Rehearsal :=
  if span = 0 then r else passUntil (r.happeningsIn span) (r.clock + span) r

/-- Carries out what happens before a condition holds, at most `n` happenings. -/
def waitFor (condition : Rehearsal → Bool) : Nat → Rehearsal → Rehearsal
  | 0, r => r
  | n + 1, r =>
    if condition r then r
    else
      match r.next? with
      | some (t, h) => waitFor condition n (r.happen t h)
      | none => r

/-- Waits for a condition that holds after two cycles at the latest. -/
def waitUntil (r : Rehearsal) (condition : Rehearsal → Bool) : Rehearsal :=
  waitFor condition (r.happeningsIn (2 * (r.cycleTimeout + 1))) r

/-- Lets a cycle run that a caller waits for, but not beyond a time. What the cycle does at that
    very time is still done. -/
def runUntil (number : Nat) : Nat → Nat → Rehearsal → Rehearsal
  | 0, time, r => { r with clock := max r.clock time }
  | n + 1, time, r =>
    if (r.answerFor? number).isSome then r
    else
      match r.next? with
      | some (t, h) =>
        let isCycle := h matches .cycle _
        if t < time || (t = time && isCycle) then runUntil number n time (r.happen t h)
        else { r with clock := max r.clock time }
      | none => { r with clock := max r.clock time }

end Roster.Rehearsal
