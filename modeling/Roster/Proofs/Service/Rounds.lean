import Mathlib.Data.List.Basic
import Roster.Service.Worker
import Roster.Sync.RateTable

/-!
# The rounds of the worker

Ticks come, refreshes are asked for and a shutdown is sent while the worker does something else, so
what it does next is decided by what stands in its queue. `Rounds` keeps the books: for each ask the
number of cycles that had begun when its command was sent, whether a shutdown had been sent before
it, and what the caller was told. A list of moves is an order in which everything happened. The
channel of the service has room for a few commands only, and who finds it full waits in line; here
the line is part of the queue.

Nobody but the worker asks for a cycle here. Who is told what is a matter of `told_getElem?`, and
whoever stands in the queue once is turned away once (`turnAway_of_once`).
-/

namespace Roster

/-- A call for a refresh. -/
structure Ask where
  /-- the number of cycles that had begun when its command was sent -/
  since : ℕ
  /-- whether a shutdown had been sent before -/
  late : Bool
  /-- what the caller was told, and which cycle came to that, if one did -/
  answers : List (Option ℕ × CycleResult) := []

/-- A service at work: its worker, its table, and what has been asked of it and come of it. -/
structure Rounds where
  worker : Worker := {}
  table : RateTable
  /-- the calls for a refresh, which the worker tells apart by their places here -/
  asks : List Ask := []
  /-- the number of cycles that have begun -/
  begun : ℕ := 0
  /-- what the cycles came to that have ended, in this order -/
  ended : List CycleResult := []
  /-- whether a shutdown has been sent -/
  closing : Bool := false

namespace Rounds

/-- What may happen next. -/
inductive Move where
  | tick
  /-- the worker takes a command -/
  | take
  /-- a refresh is asked for -/
  | refresh
  | shutdown
  /-- something happens to the cycle that the worker runs -/
  | cycle (e : Event)

/-- A service that has just been started. -/
def start (backends : Backends) (timeout : Duration) : Rounds where
  table := { backends, synchronizer := { timeout } }

/-- Callers are told what became of their asks. -/
def told (cycle : Option ℕ) (answers : Answers) (asks : List Ask) : List Ask :=
  answers.foldl
    (fun asks answer => asks.modify answer.1 fun a =>
      { a with answers := a.answers ++ [(cycle, answer.2)] }) asks

/-- The cycle that the worker runs has come to a result. -/
def report (s : Rounds) (result : CycleResult) : Rounds :=
  let (answers, worker) := s.worker.finished result
  { s with worker, asks := told (some s.ended.length) answers s.asks, ended := s.ended ++ [result] }

/-- The worker runs a cycle. -/
def begin (s : Rounds) : Rounds :=
  match s.table.step .call with
  | (some result, table) => { s with table }.report result
  | (none, table) => { s with table, begun := s.begun + 1 }

/-- The worker takes its next command, and begins a cycle where that is one for a cycle. -/
def take (s : Rounds) : Rounds :=
  let (answers, worker) := s.worker.take
  let s := { s with worker, asks := told none answers s.asks }
  match worker.activity with
  | .cycling _ => s.begin
  | _ => s

/-- Somebody calls for a refresh. -/
def refresh (s : Rounds) : Rounds :=
  let (answers, worker) := s.worker.send (.refresh s.asks.length)
  { s with worker, asks := told none answers (s.asks ++ [{ since := s.begun, late := s.closing }]) }

/-- Somebody calls for a shutdown. -/
def shutdown (s : Rounds) : Rounds :=
  let (answers, worker) := s.worker.send .shutdown
  { s with worker, asks := told none answers s.asks, closing := true }

/-- The running cycle goes on by an event; if that ends it, the worker hears what it came to. -/
def goOn (s : Rounds) (e : Event) : Rounds :=
  match s.table.step e with
  | (some result, table) => { s with table }.report result
  | (none, table) => { s with table }

/-- What a move does. Ticks and commands are taken while the worker waits, and nobody but the worker
    asks for a cycle or gives it up. -/
def step (s : Rounds) : Move → Rounds
  | .tick => if s.worker.activity = .waiting then { s with worker := s.worker.tick }.begin else s
  | .take => if s.worker.activity = .waiting then s.take else s
  | .refresh => s.refresh
  | .shutdown => s.shutdown
  | .cycle e =>
    match s.worker.activity, e with
    | .cycling _, .call => s
    | .cycling _, .dropped _ => s
    | .cycling _, e => s.goOn e
    | _, _ => s

/-- What a service comes to by a list of moves. -/
def run (s : Rounds) (moves : List Move) : Rounds :=
  moves.foldl step s

/-! ## Answers -/

variable {s : Rounds} {n : ℕ} {a : Ask} {result : CycleResult}

/-- What one of the callers is told. -/
theorem told_getElem? (cycle : Option ℕ) (answers : Answers) (asks : List Ask) (n : ℕ) :
    (told cycle answers asks)[n]? = asks[n]?.map fun a =>
      { a with
        answers := a.answers ++
          (answers.filter fun answer => answer.1 = n).map fun answer => (cycle, answer.2) } := by
  induction answers generalizing asks with
  | nil => simp [told]
  | cons first more ih =>
    change (told cycle more _)[n]? = _
    rw [ih, List.getElem?_modify]
    by_cases h : first.1 = n
    · simp [h, Function.comp_def]
    · simp [h]

theorem length_told (cycle : Option ℕ) (answers : Answers) (asks : List Ask) :
    (told cycle answers asks).length = asks.length := by
  induction answers generalizing asks with
  | nil => rfl
  | cons first more ih =>
    change (told cycle more _).length = _
    rw [ih, List.length_modify]

/-- A call that is not among the answers is told nothing. -/
theorem told_of_silent {cycle : Option ℕ} {answers : Answers} {asks : List Ask}
    (h : (answers.filter fun answer => answer.1 = n) = []) :
    (told cycle answers asks)[n]? = asks[n]? := by
  rw [told_getElem?, h]
  simp

/-- A call that is among the answers once is told that answer. -/
theorem told_of_one {cycle : Option ℕ} {answers : Answers} {asks : List Ask}
    (h : (answers.filter fun answer => answer.1 = n) = [(n, result)]) :
    (told cycle answers asks)[n]? = asks[n]?.map fun a =>
      { a with answers := a.answers ++ [(cycle, result)] } := by
  rw [told_getElem?, h]
  rfl

theorem turnAway_of_not_mem {commands : List Command} (h : .refresh n ∉ commands) :
    ((Worker.turnAway commands).filter fun answer => answer.1 = n) = [] := by
  rw [List.filter_eq_nil_iff]
  intro answer hmem
  obtain ⟨command, hcommand, hanswer⟩ := List.mem_filterMap.mp hmem
  cases command with
  | shutdown => cases hanswer
  | refresh caller =>
    cases hanswer
    intro heq
    obtain rfl : caller = n := of_decide_eq_true heq
    exact h hcommand

/-- Who stands in the queue once is turned away once. -/
theorem turnAway_of_once {before after : List Command}
    (h : .refresh n ∉ before ∧ .refresh n ∉ after) :
    ((Worker.turnAway (before ++ .refresh n :: after)).filter fun answer => answer.1 = n) =
      [(n, .error .workerStopped)] := by
  have hafter := turnAway_of_not_mem h.2
  have hbefore := turnAway_of_not_mem h.1
  unfold Worker.turnAway at hafter hbefore ⊢
  rw [List.filterMap_append, List.filter_append, hbefore, List.nil_append, List.filterMap_cons]
  simp only [List.filter_cons, decide_true, if_true]
  rw [hafter]

end Rounds

end Roster
