import Roster.Sync.Report

/-!
# The worker

One worker runs all cycles of a service, one at start, one at every tick, and one for each
refresh that is asked for. Commands wait in a queue while a cycle runs. Whoever asks for a
refresh is told what the cycle came to that was run for it, or that the worker has stopped. Once
stopped it stays so.

The service is ready from the first cycle on that succeeded.
-/

namespace Roster

/-- What the worker is asked for. Callers are told apart by numbers. -/
inductive Command where
  | refresh (caller : Nat)
  | shutdown
  deriving DecidableEq, Repr

/-- What the worker is doing. -/
inductive Activity where
  /-- waits for a tick or a command -/
  | waiting
  /-- runs a cycle, for a caller if there is one -/
  | cycling (caller : Option Nat)
  | stopped
  deriving DecidableEq, Repr

/-- What runs cycles, on every tick and on command. -/
structure Worker where
  activity : Activity := .waiting
  /-- the commands that wait, the oldest first -/
  queue : List Command := []
  ready : Bool := false
  deriving DecidableEq, Repr

/-- Results for callers, by the numbers of these. -/
abbrev Answers := List (Nat × CycleResult)

namespace Worker

/-- Answers for commands that will never be carried out. Who asks for the end wants no answer. -/
def turnAway (commands : List Command) : Answers :=
  commands.filterMap fun c => match c with
    | .refresh caller => some (caller, .error .workerStopped)
    | .shutdown => none

/-- A command joins those that wait, unless the worker has stopped. -/
def send (w : Worker) (c : Command) : Answers × Worker :=
  match w.activity with
  | .stopped => (turnAway [c], w)
  | _ => ([], { w with queue := w.queue ++ [c] })

/-- A tick starts a cycle for nobody. -/
def tick (w : Worker) : Worker :=
  { w with activity := .cycling none }

/-- The worker takes the oldest command: a cycle is to be run, or the worker stops. -/
def take (w : Worker) : Answers × Worker :=
  match w.queue with
  | [] => ([], w)
  | .refresh caller :: rest => ([], { w with activity := .cycling (some caller), queue := rest })
  | .shutdown :: rest => (turnAway rest, { w with activity := .stopped, queue := [] })

/-- The cycle is over. Who asked for it is answered, and the worker waits again. -/
def finished (w : Worker) (result : CycleResult) : Answers × Worker :=
  match w.activity with
  | .cycling caller =>
    (caller.toList.map fun c => (c, result),
      { w with activity := .waiting, ready := w.ready || result.isOk })
  | _ => ([], w)

end Worker

end Roster
