import Roster.Proofs.Query.Outcome

/-!
# Queries that overlap

Any number of queries may be under way at one time. Each goes through the stages of the assembler,
and between two of its stages the others go on. `Queries` are an assembler with all the queries that
were begun. A move takes one of them a stage further or ends it, and a list of moves is an
interleaving. What the readers find is part of a move, since it depends on the backends; a query
that has the assembler for itself goes the way of a visit (`run_alone`).

Of all that the load only sees guards (`Queries.guards`). A query holds one from its beginning to
its end, on whatever path it is, so that the load counts the queries that are under way and the one
that looks at it is one of them.
-/

namespace Roster

open Assembler

/-- How far a query has come. -/
inductive Call where
  | entered (r : Request) (now : Instant)
  /-- it waits for the candidates -/
  | reading (r : Request) (now : Instant) (policy : Policy) (next : NextRequest)
  /-- the answer is complete -/
  | answered (response : Response)
  /-- it has come to its end, or it was given up before there was an answer -/
  | ended (response : Option Response)

namespace Call

/-- A query that has begun and not ended. -/
def underWay : Call → Bool
  | .ended _ => false
  | _ => true

/-- What a query was answered, where it was. -/
def response? : Call → Option Response
  | .answered response => some response
  | .ended response => response
  | _ => none

/-- Where the first stage leads to. -/
def prepared (r : Request) (now : Instant) : Preparation → Call
  | .refused response => .answered response
  | .throttled _ response => .answered response
  | .admitted policy next => .reading r now policy next

@[simp] theorem underWay_prepared (r : Request) (now : Instant) (preparation : Preparation) :
    (prepared r now preparation).underWay = true := by
  cases preparation with
  | refused _ => rfl
  | throttled _ _ => rfl
  | admitted _ _ => rfl

end Call

/-- An assembler and the queries that it is busy with. -/
structure Queries where
  assembler : Assembler
  calls : List Call := []

namespace Queries

/-- Queries are numbered in the order in which they begin. -/
inductive Move where
  | enter (r : Request) (now : Instant)
  | prepare (i : ℕ) (clock : Instant)
  | conclude (i : ℕ) (candidates : Except ReadError (List Entry))
  | leave (i : ℕ)

/-- What a move makes of the queries. It does nothing to a query that is not where the move
    starts. -/
def step (q : Queries) : Move → Queries
  | .enter r now => { assembler := q.assembler.enter, calls := q.calls ++ [.entered r now] }
  | .prepare i clock =>
    match q.calls[i]? with
    | some (.entered r now) =>
      let (preparation, assembler) := q.assembler.prepare r now clock
      { assembler, calls := q.calls.set i (.prepared r now preparation) }
    | _ => q
  | .conclude i candidates =>
    match q.calls[i]? with
    | some (.reading r now policy next) =>
      let (response, assembler) := q.assembler.conclude r policy next now candidates
      { assembler, calls := q.calls.set i (.answered response) }
    | _ => q
  | .leave i =>
    match q.calls[i]? with
    | some call =>
      if call.underWay then
        { assembler := q.assembler.leave, calls := q.calls.set i (.ended call.response?) }
      else q
    | none => q

/-- What queries come to by a list of moves. -/
def run (q : Queries) (moves : List Move) : Queries :=
  moves.foldl step q

/-- The stages of a query that has the assembler for itself. -/
def alone (r : Request) (now clock : Instant) (candidates : Except ReadError (List Entry)) :
    List Move :=
  [.enter r now, .prepare 0 clock, .conclude 0 candidates, .leave 0]

variable {a : Assembler} {v : Visit} {r : Request} {now clock : Instant} {i : ℕ}

/-- A query alone goes the way of a visit. -/
theorem run_alone (candidates : Except ReadError (List Entry))
    (h : ∀ policy, policyOf v.request.policy = .ok policy → candidates = a.candidatesOf v policy) :
    run { assembler := a.meet v } (alone v.request v.now v.clock candidates) =
      { assembler := a.left v, calls := [.ended (some (a.answer v))] } := by
  have hvisit : (a.answer v, a.left v) = _ := a.run_assemble v
  have hfirst : run { assembler := a.meet v } (alone v.request v.now v.clock candidates) =
      run { assembler := ((a.meet v).enter.prepare v.request v.now v.clock).2
            calls :=
              [.prepared v.request v.now ((a.meet v).enter.prepare v.request v.now v.clock).1] }
        [.conclude 0 candidates, .leave 0] := rfl
  rw [hfirst]
  generalize hprepare : (a.meet v).enter.prepare v.request v.now v.clock = prepared at hvisit
  obtain ⟨preparation, b⟩ := prepared
  obtain ⟨hanswer, hleft⟩ := Prod.mk.inj hvisit
  rw [hanswer, hleft]
  cases preparation with
  | refused response => rfl
  | throttled reason response => rfl
  | admitted policy next =>
    have hknown : policyOf v.request.policy = .ok policy := by
      have hcases := prepare_cases (a.meet v).enter v.request v.now v.clock
      rw [hprepare] at hcases
      cases hcases with
      | admitted asks load => exact asks.known
    rw [h policy hknown]
    rfl

/-! ## Queries as guards -/

/-- What the load sees of queries. -/
def guards (q : Queries) : Guards where
  monitor := q.assembler.load
  flags := q.calls.map Call.underWay

theorem load_prepare_of_asks {policy : Policy} (h : Asks r policy) :
    (a.prepare r now clock).2.load = (a.load.signal clock r.client.address).2 := by
  have hprepare := prepare_cases a r now clock
  generalize a.prepare r now clock = prepared at hprepare ⊢
  cases hprepare with
  | refused title detail faulty => exact absurd h (faulty policy)
  | throttled asks load => rfl
  | admitted asks load => rfl

theorem load_prepare_of_faulty (h : r.Faulty) : (a.prepare r now clock).2.load = a.load := by
  have hprepare := prepare_cases a r now clock
  generalize a.prepare r now clock = prepared at hprepare ⊢
  cases hprepare with
  | refused title detail faulty => rfl
  | throttled asks load => exact absurd h (not_faulty_iff.mpr ⟨_, asks⟩)
  | admitted asks load => exact absurd h (not_faulty_iff.mpr ⟨_, asks⟩)

/-- Preparing a query looks at the monitor once at most. -/
theorem load_prepare (a : Assembler) (r : Request) (now clock : Instant) :
    (a.prepare r now clock).2.load = a.load ∨
      (a.prepare r now clock).2.load = (a.load.signal clock r.client.address).2 := by
  by_cases h : r.Faulty
  · exact .inl (load_prepare_of_faulty h)
  · obtain ⟨policy, hasks⟩ := not_faulty_iff.mp h
    exact .inr (load_prepare_of_asks hasks)

theorem load_conclude {policy : Policy} {next : NextRequest}
    {candidates : Except ReadError (List Entry)} :
    (a.conclude r policy next now candidates).2.load = a.load := by
  cases candidates with
  | error _ => rfl
  | ok candidates =>
    dsimp only [conclude]
    split
    · rfl
    · rfl

/-- A query that is still under way holds its guard. -/
theorem map_set_underWay {calls : List Call} {old : Call} (new : Call) (h : calls[i]? = some old)
    (hflag : new.underWay = old.underWay) :
    (calls.set i new).map Call.underWay = calls.map Call.underWay := by
  obtain ⟨hi, rfl⟩ := List.getElem?_eq_some_iff.mp h
  have hlength : i < (calls.map Call.underWay).length := by rwa [List.length_map]
  rw [List.map_set, hflag, ← List.getElem_map Call.underWay (h := hlength), List.set_getElem_self]

/-- What a move does to the guards. -/
theorem guards_step (q : Queries) (move : Move) :
    ∃ moves, (q.step move).guards = q.guards.run moves := by
  cases move with
  | enter r now =>
    refine ⟨[.enter], ?_⟩
    simp only [step, guards, List.map_append]
    rfl
  | prepare i clock =>
    dsimp only [step]
    split
    · next r now hcall =>
      have hflags := map_set_underWay _ hcall
        (Call.underWay_prepared r now (q.assembler.prepare r now clock).1)
      dsimp only [guards]
      rw [hflags]
      rcases load_prepare q.assembler r now clock with hload | hload
      · exact ⟨[], by rw [hload]; rfl⟩
      · exact ⟨[.signal clock r.client.address], by rw [hload]; rfl⟩
    · exact ⟨[], rfl⟩
  | conclude i candidates =>
    refine ⟨[], ?_⟩
    dsimp only [step]
    split
    · next r now policy next hcall =>
      have hflags := map_set_underWay (.answered
        (q.assembler.conclude r policy next now candidates).1) hcall rfl
      dsimp only [guards]
      rw [hflags, load_conclude]
      rfl
    · rfl
  | leave i =>
    dsimp only [step]
    split
    · next call hcall =>
      split
      -- Only a query that is under way has a guard to drop.
      · next hunderWay =>
        have hheld : q.guards.flags[i]? = some true := by
          rw [guards, List.getElem?_map, hcall, Option.map_some, hunderWay]
        refine ⟨[.drop i], ?_⟩
        simp only [Guards.run, List.foldl_cons, List.foldl_nil, Guards.step, if_pos hheld]
        simp only [guards, List.map_set]
        rfl
      · exact ⟨[], rfl⟩
    · exact ⟨[], rfl⟩

/-- What queries do to the guards is a list of moves of them. -/
theorem guards_run (q : Queries) (moves : List Move) :
    ∃ moves', (q.run moves).guards = q.guards.run moves' := by
  induction moves generalizing q with
  | nil => exact ⟨[], rfl⟩
  | cons move rest ih =>
    obtain ⟨first, hfirst⟩ := guards_step q move
    obtain ⟨later, hlater⟩ := ih (q.step move)
    refine ⟨first ++ later, ?_⟩
    rw [Guards.run_append, ← hfirst]
    exact hlater

/-! ## What is counted -/

/-- An assembler before its first query. -/
def ofLimits (a : Assembler) (limits : LoadLimits) : Queries where
  assembler := { a with load := .ofLimits limits }

theorem held_guards (q : Queries) : q.guards.held = q.calls.countP Call.underWay := by
  rw [Guards.held, guards, List.count_eq_countP, List.countP_map]
  refine List.countP_congr fun call _ => ?_
  simp

theorem counted_run (a : Assembler) (limits : LoadLimits) (moves : List Move) :
    ((ofLimits a limits).run moves).guards.Counted limits := by
  obtain ⟨moves', hguards⟩ := guards_run (ofLimits a limits) moves
  rw [hguards]
  exact Guards.counted_run (Guards.counted_ofLimits limits) moves'

/-- The capacity stays what the limits say. -/
theorem capacity_run (a : Assembler) (limits : LoadLimits) (moves : List Move) :
    ((ofLimits a limits).run moves).assembler.load.capacity = max limits.capacity 1 :=
  congrArg (fun l : LoadLimits => max l.capacity 1) (counted_run a limits moves).limits

/-- The load counts the queries that are under way. -/
theorem inFlight_run (a : Assembler) (limits : LoadLimits) (moves : List Move) :
    ((ofLimits a limits).run moves).assembler.load.inFlight =
      ((ofLimits a limits).run moves).calls.countP Call.underWay :=
  (counted_run a limits moves).held.trans (held_guards _)

/-! ## Turned away -/

/-- A query that looks at the load next. -/
def Reaches (q : Queries) (i : ℕ) (r : Request) (now : Instant) : Prop :=
  q.calls[i]? = some (.entered r now) ∧ ¬ r.Faulty

/-- A query whose answer is that the server is full. -/
def TurnedAway (q : Queries) (i : ℕ) : Prop :=
  ∃ response, q.calls[i]? = some (.answered response) ∧ Fails response 503 "capacity exhausted"

/-- The number of queries under way beside one. -/
def others (q : Queries) (i : ℕ) : ℕ :=
  (q.calls.eraseIdx i).countP Call.underWay

theorem others_add_one {q : Queries} {call : Call} (h : q.calls[i]? = some call)
    (hunderWay : call.underWay) :
    q.others i + 1 = q.calls.countP Call.underWay := by
  obtain ⟨hi, rfl⟩ := List.getElem?_eq_some_iff.mp h
  rw [← (List.getElem_cons_eraseIdx_perm hi).countP_eq, List.countP_cons_of_pos hunderWay]
  rfl

theorem eq_of_throttleStatus_eq {reason reason' : ThrottleReason}
    (h : (throttleStatus reason).1 = (throttleStatus reason').1) : reason = reason' := by
  cases reason with
  | capacityExhausted =>
    cases reason' with
    | capacityExhausted => rfl
    | clientRateExceeded => cases h
  | clientRateExceeded =>
    cases reason' with
    | capacityExhausted => cases h
    | clientRateExceeded => rfl

/-- The first stage ends with an answer that the load forbids more exactly if the load does,
    and for its reason. -/
theorem prepare_throttled_iff (now clock : Instant) (h : ¬ r.Faulty) (reason : ThrottleReason) :
    (∃ response, Call.prepared r now (a.prepare r now clock).1 = .answered response ∧
      Fails response (throttleStatus reason).1 (throttleStatus reason).2) ↔
      Scheduler.throttleOf (a.load.signal clock r.client.address).1 = some reason := by
  obtain ⟨policy, hasks⟩ := not_faulty_iff.mp h
  rw [hasks.prepare_eq]
  cases hload : Scheduler.throttleOf (a.load.signal clock r.client.address).1 with
  | none =>
    rw [pace_eq_admitted hload]
    refine iff_of_false ?_ nofun
    rintro ⟨_, ⟨⟩, -⟩
  | some actual =>
    rw [pace_eq_throttled hload]
    constructor
    · rintro ⟨_, ⟨⟩, hfails⟩
      exact congrArg some (eq_of_throttleStatus_eq (fails_failure_iff.mp hfails).1)
    · rintro ⟨⟩
      exact ⟨_, rfl, fails_failure_iff.mpr ⟨rfl, rfl⟩⟩

/-- The first stage ends with an answer that the server is full exactly if the load says so. -/
theorem prepare_full_iff (now clock : Instant) (h : ¬ r.Faulty) :
    (∃ response, Call.prepared r now (a.prepare r now clock).1 = .answered response ∧
      Fails response 503 "capacity exhausted") ↔ a.load.capacity < a.load.inFlight := by
  rw [← a.load.capacityExhausted_signal_iff clock r.client.address]
  exact (prepare_throttled_iff now clock h .capacityExhausted).trans
    Scheduler.throttleOf_eq_full_iff

/-- A query is turned away if and only if more are in flight than there is capacity. -/
theorem turnedAway_prepare_iff {q : Queries} (h : q.Reaches i r now) :
    (q.step (.prepare i clock)).TurnedAway i ↔
      q.assembler.load.capacity < q.assembler.load.inFlight := by
  obtain ⟨hcall, hfaulty⟩ := h
  obtain ⟨hi, -⟩ := List.getElem?_eq_some_iff.mp hcall
  rw [← prepare_full_iff now clock hfaulty, TurnedAway, step]
  simp only [hcall, List.getElem?_set_self hi, Option.some.injEq]

/-- **The load is counted exactly**, however the guards come and go, and a query is turned away for
    the load exactly if, at the moment when it looks, at least as many others are under way as the
    server is sized for. The size is a machine word, since a larger one would be no number that a
    signal can divide by. -/
theorem counted_exactly (a : Assembler) (limits : LoadLimits)
    (hlimits : limits.capacity < UInt64.size) :
    (∀ moves, ((Guards.ofLimits limits).run moves).Exact (max limits.capacity 1)) ∧
      ∀ moves i r now clock, ((ofLimits a limits).run moves).Reaches i r now →
        ((((ofLimits a limits).run moves).step (.prepare i clock)).TurnedAway i ↔
          max limits.capacity 1 ≤ ((ofLimits a limits).run moves).others i) := by
  constructor
  · intro moves
    exact (Guards.counted_run (Guards.counted_ofLimits limits) moves).exact hlimits
  · intro moves i r now clock hreaches
    rw [turnedAway_prepare_iff hreaches, capacity_run, inFlight_run,
      ← others_add_one hreaches.1 rfl]
    exact Nat.lt_succ_iff

/-- A server for one query at a time turns the second of two away, and not the first. -/
theorem second_turnedAway :
    let r : Request := { service := "ndt", path := "/v2/query/ndt" }
    let one := (ofLimits sample { capacity := 1 }).run [.enter r ⟨0⟩]
    let two := (ofLimits sample { capacity := 1 }).run [.enter r ⟨0⟩, .enter r ⟨0⟩]
    ¬ (one.step (.prepare 0 ⟨0⟩)).TurnedAway 0 ∧ two.others 1 = 1 ∧
      (two.step (.prepare 1 ⟨0⟩)).TurnedAway 1 := by
  intro r one two
  have hsize : ({ capacity := 1 } : LoadLimits).capacity < UInt64.size := by decide
  have hturned := (counted_exactly sample { capacity := 1 } hsize).2
  have hfaulty : ¬ r.Faulty := not_faulty_iff.mpr ⟨.standard, rfl, fun h => nomatch h.1⟩
  refine ⟨?_, rfl, ?_⟩
  · exact mt (hturned [.enter r ⟨0⟩] 0 r ⟨0⟩ ⟨0⟩ ⟨rfl, hfaulty⟩).mp (by decide)
  · exact (hturned [.enter r ⟨0⟩, .enter r ⟨0⟩] 1 r ⟨0⟩ ⟨0⟩ ⟨rfl, hfaulty⟩).mpr (by decide)

end Queries

end Roster
