import Roster.Proofs.Query.Overlap

/-!
# Where queries look at the load

A query looks at the load once it is known that it is not faulty, and is counted as a request of its
client's in the same moment. Nothing else ever moves a counter (`load_step_of_look`,
`load_step_of_none`), so what is to be known of a run for its counters are its looks
(`Queries.looks`).

Where a query looks is told from its answer. Whoever is refused for a fault has never looked, and
everybody else who has an answer has looked once, whatever the answer is (`Looked.eq_of_response`).
This is an invariant of one query at a time, kept by its own moves (`looked_own`), since no move
takes two queries further.
-/

namespace Roster

open Assembler

/-! ## Looks -/

instance (r : Request) : Decidable r.Faulty :=
  match h : policyOf r.policy with
  | .error detail => isTrue (.inl (policyOf_eq_error_iff.mp ⟨detail, h⟩))
  | .ok policy =>
    if hmetro : policy = .metro ∧ r.client.metro.isNone then
      isTrue (.inr ⟨policyOf_eq_metro_iff.mp (hmetro.1 ▸ h), Option.isNone_iff_eq_none.mp hmetro.2⟩)
    else isFalse (not_faulty_iff.mpr ⟨policy, h, hmetro⟩)

namespace Queries

variable {q : Queries} {move : Move} {i : ℕ} {r : Request} {now clock : Instant}

/-- What a query has seen of the load, and as whose it was counted. -/
structure Look where
  query : ℕ
  client : Option String
  clock : Instant
  signal : LoadSignal

/-- The look at the load that a move is. A faulty query is refused before it looks. -/
def look? (q : Queries) : Move → Option Look
  | .prepare i clock =>
    match q.calls[i]? with
    | some (.entered r _) =>
      if r.Faulty then none
      else some ⟨i, r.client.address, clock, (q.assembler.load.signal clock r.client.address).1⟩
    | _ => none
  | _ => none

/-- The looks of a run. -/
def looks (q : Queries) : List Move → List Look
  | [] => []
  | move :: rest => (q.look? move).toList ++ (q.step move).looks rest

theorem look?_of_reaches (h : q.Reaches i r now) :
    q.look? (.prepare i clock) =
      some ⟨i, r.client.address, clock, (q.assembler.load.signal clock r.client.address).1⟩ := by
  simp only [look?, h.1, if_neg h.2]

theorem exists_of_look? {look : Look} (h : q.look? move = some look) : ∃ i r now clock,
    move = .prepare i clock ∧ q.Reaches i r now ∧
      look = ⟨i, r.client.address, clock, (q.assembler.load.signal clock r.client.address).1⟩ := by
  cases move with
  | prepare i clock =>
    dsimp only [look?] at h
    split at h
    · next r now hcall =>
      split at h
      · cases h
      · next hfaulty => exact ⟨i, r, now, clock, rfl, ⟨hcall, hfaulty⟩, (Option.some.inj h).symm⟩
    · cases h
  | enter r now => cases h
  | conclude i candidates => cases h
  | leave i => cases h

/-- A look is what the load says, and the load counts it. -/
theorem load_step_of_look {look : Look} (h : q.look? move = some look) :
    look.signal = (q.assembler.load.signal look.clock look.client).1 ∧
      (q.step move).assembler.load = (q.assembler.load.signal look.clock look.client).2 := by
  obtain ⟨i, r, now, clock, rfl, hreaches, rfl⟩ := exists_of_look? h
  obtain ⟨policy, hasks⟩ := not_faulty_iff.mp hreaches.2
  refine ⟨rfl, ?_⟩
  simp only [step, hreaches.1]
  exact load_prepare_of_asks hasks

/-- A move that is no look leaves all counters and the limits as they are. -/
theorem load_step_of_none (h : q.look? move = none) :
    (q.step move).assembler.load.clients = q.assembler.load.clients ∧
      (q.step move).assembler.load.limits = q.assembler.load.limits := by
  cases move with
  | enter r now => exact ⟨rfl, rfl⟩
  | prepare i clock =>
    dsimp only [step]
    split
    · next r now hcall =>
      have hfaulty : r.Faulty := by
        by_contra hfaulty
        rw [look?_of_reaches ⟨hcall, hfaulty⟩] at h
        cases h
      rw [load_prepare_of_faulty hfaulty]
      exact ⟨rfl, rfl⟩
    · exact ⟨rfl, rfl⟩
  | conclude i candidates =>
    dsimp only [step]
    split
    · rw [load_conclude]
      exact ⟨rfl, rfl⟩
    · exact ⟨rfl, rfl⟩
  | leave i =>
    dsimp only [step]
    split
    · split
      · exact ⟨rfl, rfl⟩
      · exact ⟨rfl, rfl⟩
    · exact ⟨rfl, rfl⟩

theorem limits_step (q : Queries) (move : Move) :
    (q.step move).assembler.load.limits = q.assembler.load.limits := by
  cases hlook : q.look? move with
  | none => exact (load_step_of_none hlook).2
  | some look => rw [(load_step_of_look hlook).2, LoadMonitor.limits_signal]

/-- No move changes the limits. -/
theorem limits_run (q : Queries) (moves : List Move) :
    (q.run moves).assembler.load.limits = q.assembler.load.limits := by
  induction moves generalizing q with
  | nil => rfl
  | cons move rest ih => exact (ih (q.step move)).trans (limits_step q move)

/-! ## Where a query looks -/

/-- The addresses as which a query was counted. -/
def countedAs (q : Queries) (i : ℕ) (moves : List Move) : List (Option String) :=
  ((q.looks moves).filter fun look => look.query = i).map Look.client

/-- The requests with which queries begin. -/
def begun (moves : List Move) : List Request :=
  moves.filterMap fun
    | .enter r _ => some r
    | _ => none

/-- As whom a query was counted when it has come so far. A query that was given up may
    have got anywhere. -/
inductive Looked (r : Request) : Call → List (Option String) → Prop
  | entered (now : Instant) : Looked r (.entered r now) []
  | reading (now : Instant) (policy : Policy) (next : NextRequest) :
      Looked r (.reading r now policy next) [r.client.address]
  | refused {response : Response} (status : response.status = 400) :
      Looked r (.answered response) []
  | answered {response : Response} (status : response.status ≠ 400) :
      Looked r (.answered response) [r.client.address]
  | gaveUp (addresses : List (Option String)) : Looked r (.ended none) addresses
  | ended {response : Response} {addresses : List (Option String)}
      (answered : Looked r (.answered response) addresses) :
      Looked r (.ended (some response)) addresses

theorem Looked.eq_of_response {call : Call} {addresses : List (Option String)} {response : Response}
    (h : Looked r call addresses) (hresponse : call.response? = some response) :
    addresses = if response.status = 400 then [] else [r.client.address] := by
  induction h with
  | entered now => cases hresponse
  | reading now policy next => cases hresponse
  | refused status =>
    cases hresponse
    rw [if_pos status]
  | answered status =>
    cases hresponse
    rw [if_neg status]
  | gaveUp addresses => cases hresponse
  | ended answered ih => exact ih hresponse

theorem looked_prepared (a : Assembler) (r : Request) (now clock : Instant) :
    Looked r (.prepared r now (a.prepare r now clock).1)
      (if r.Faulty then [] else [r.client.address]) := by
  have hprepare := prepare_cases a r now clock
  generalize a.prepare r now clock = prepared at hprepare ⊢
  cases hprepare with
  | refused title detail faulty =>
    have hfaulty : r.Faulty := by
      by_contra hfaulty
      obtain ⟨policy, hasks⟩ := not_faulty_iff.mp hfaulty
      exact faulty policy hasks
    rw [if_pos hfaulty]
    exact .refused rfl
  | throttled asks load =>
    rename_i policy reason
    rw [if_neg (not_faulty_iff.mpr ⟨policy, asks⟩)]
    refine .answered ?_
    cases reason with
    | capacityExhausted => exact nofun
    | clientRateExceeded => exact nofun
  | admitted asks load =>
    rw [if_neg (not_faulty_iff.mpr ⟨_, asks⟩)]
    exact .reading now _ _

/-- The query that a move takes further. -/
def Move.query? : Move → Option ℕ
  | .enter _ _ => none
  | .prepare i _ => some i
  | .conclude i _ => some i
  | .leave i => some i

theorem getElem?_step_of_ne {call : Call} (h : q.calls[i]? = some call)
    (hmove : move.query? ≠ some i) :
    (q.step move).calls[i]? = some call := by
  have hset (j : ℕ) (new : Call) (hj : some j ≠ some i) : (q.calls.set j new)[i]? = some call := by
    rw [List.getElem?_set_ne (fun heq => hj (congrArg some heq)), h]
  cases move with
  | enter r now => exact (List.getElem?_append_left (List.getElem?_eq_some_iff.mp h).1).trans h
  | prepare j clock =>
    dsimp only [step]
    split
    · exact hset j _ hmove
    · exact h
  | conclude j candidates =>
    dsimp only [step]
    split
    · exact hset j _ hmove
    · exact h
  | leave j =>
    dsimp only [step]
    split
    · split
      · exact hset j _ hmove
      · exact h
    · exact h

theorem countedAs_cons (q : Queries) (i : ℕ) (move : Move) (rest : List Move) :
    q.countedAs i (move :: rest) = q.countedAs i [move] ++ (q.step move).countedAs i rest := by
  simp [countedAs, looks]

theorem countedAs_of_none (i : ℕ) (h : q.look? move = none) : q.countedAs i [move] = [] := by
  simp [countedAs, looks, h]

theorem countedAs_of_ne (h : move.query? ≠ some i) : q.countedAs i [move] = [] := by
  cases hlook : q.look? move with
  | none => exact countedAs_of_none i hlook
  | some look =>
    obtain ⟨j, r, now, clock, rfl, -, rfl⟩ := exists_of_look? hlook
    have hne : j ≠ i := fun heq => h (congrArg some heq)
    simp [countedAs, looks, hlook, hne]

/-- A query is counted for its client when it is prepared, unless it is faulty. -/
theorem countedAs_prepare (h : q.calls[i]? = some (.entered r now)) (clock : Instant) :
    q.countedAs i [.prepare i clock] = if r.Faulty then [] else [r.client.address] := by
  split
  · next hfaulty =>
    refine countedAs_of_none i ?_
    simp only [look?, h, if_pos hfaulty]
  · next hfaulty => simp [countedAs, looks, look?_of_reaches ⟨h, hfaulty⟩]

/-- A move of a query, and what it adds to its looks. -/
theorem looked_own {call : Call} {addresses : List (Option String)} (h : q.calls[i]? = some call)
    (hlooked : Looked r call addresses) (hmove : move.query? = some i) :
    ∃ call', (q.step move).calls[i]? = some call' ∧
      Looked r call' (addresses ++ q.countedAs i [move]) := by
  obtain ⟨hi, -⟩ := List.getElem?_eq_some_iff.mp h
  -- A move that starts at another stage does nothing.
  have hstays (hstep : q.step move = q) (hlook : q.look? move = none) :
      ∃ call', (q.step move).calls[i]? = some call' ∧
        Looked r call' (addresses ++ q.countedAs i [move]) := by
    rw [hstep, countedAs_of_none i hlook, List.append_nil]
    exact ⟨call, h, hlooked⟩
  cases move with
  | enter r' now => cases hmove
  | prepare j clock =>
    obtain rfl : j = i := Option.some.inj hmove
    cases hlooked with
    | entered now =>
      refine ⟨.prepared r now (q.assembler.prepare r now clock).1, ?_, ?_⟩
      · simp only [step, h]
        exact List.getElem?_set_self hi
      · rw [countedAs_prepare h]
        exact looked_prepared q.assembler r now clock
    | reading now policy next => exact hstays (by simp only [step, h]) (by simp only [look?, h])
    | refused status => exact hstays (by simp only [step, h]) (by simp only [look?, h])
    | answered status => exact hstays (by simp only [step, h]) (by simp only [look?, h])
    | gaveUp addresses => exact hstays (by simp only [step, h]) (by simp only [look?, h])
    | ended answered => exact hstays (by simp only [step, h]) (by simp only [look?, h])
  | conclude j candidates =>
    obtain rfl : j = i := Option.some.inj hmove
    cases hlooked with
    | reading now policy next =>
      refine ⟨.answered (q.assembler.conclude r policy next now candidates).1, ?_, ?_⟩
      · simp only [step, h]
        exact List.getElem?_set_self hi
      · rw [countedAs_of_none j rfl]
        exact .answered (conclude_late q.assembler r policy next now candidates).1
    | entered now => exact hstays (by simp only [step, h]) rfl
    | refused status => exact hstays (by simp only [step, h]) rfl
    | answered status => exact hstays (by simp only [step, h]) rfl
    | gaveUp addresses => exact hstays (by simp only [step, h]) rfl
    | ended answered => exact hstays (by simp only [step, h]) rfl
  | leave j =>
    obtain rfl : j = i := Option.some.inj hmove
    cases hunderWay : call.underWay with
    | false =>
      refine hstays ?_ rfl
      simp only [step, h, hunderWay, Bool.false_eq_true, if_false]
    | true =>
      refine ⟨.ended call.response?, ?_, ?_⟩
      · simp only [step, h, hunderWay, if_true]
        exact List.getElem?_set_self hi
      · rw [countedAs_of_none j rfl, List.append_nil]
        cases hlooked with
        | entered now => exact .gaveUp _
        | reading now policy next => exact .gaveUp _
        | refused status => exact .ended (.refused status)
        | answered status => exact .ended (.answered status)
        | gaveUp addresses => cases hunderWay
        | ended answered => cases hunderWay

/-- A move leaves each query with the looks that it should have had. -/
theorem looked_step {call : Call} {addresses : List (Option String)} (h : q.calls[i]? = some call)
    (hlooked : Looked r call addresses) (move : Move) :
    ∃ call', (q.step move).calls[i]? = some call' ∧
      Looked r call' (addresses ++ q.countedAs i [move]) := by
  by_cases hmove : move.query? = some i
  · exact looked_own h hlooked hmove
  · rw [countedAs_of_ne hmove, List.append_nil]
    exact ⟨call, getElem?_step_of_ne h hmove, hlooked⟩

/-- Any moves leave each query with the looks that it should have had. -/
theorem looked_run {call : Call} {addresses : List (Option String)} (moves : List Move)
    (h : q.calls[i]? = some call) (hlooked : Looked r call addresses) :
    ∃ call', (q.run moves).calls[i]? = some call' ∧
      Looked r call' (addresses ++ q.countedAs i moves) := by
  induction moves generalizing q call addresses with
  | nil =>
    exact ⟨call, h, by rwa [countedAs, looks, List.filter_nil, List.map_nil, List.append_nil]⟩
  | cons move rest ih =>
    obtain ⟨call', hcall, hstep⟩ := looked_step h hlooked move
    obtain ⟨last, hlast, hrun⟩ := ih hcall hstep
    rw [countedAs_cons, ← List.append_assoc]
    exact ⟨last, hlast, hrun⟩

/-- Queries begin at the end of the list, and only there. -/
theorem length_step (q : Queries) (move : Move) :
    (q.step move).calls.length = q.calls.length + (begun [move]).length := by
  cases move with
  | enter r now => exact List.length_append
  | prepare i clock =>
    dsimp only [step]
    split
    · exact List.length_set
    · rfl
  | conclude i candidates =>
    dsimp only [step]
    split
    · exact List.length_set
    · rfl
  | leave i =>
    dsimp only [step]
    split
    · split
      · exact List.length_set
      · rfl
    · rfl

/-- Nothing is counted for a query that has not begun. -/
theorem countedAs_of_length_le (h : q.calls.length ≤ i) : q.countedAs i [move] = [] := by
  cases hlook : q.look? move with
  | none => exact countedAs_of_none i hlook
  | some look =>
    obtain ⟨j, r, now, clock, rfl, hreaches, -⟩ := exists_of_look? hlook
    obtain ⟨hj, -⟩ := List.getElem?_eq_some_iff.mp hreaches.1
    refine countedAs_of_ne fun heq => ?_
    obtain rfl : j = i := Option.some.inj heq
    exact absurd hj h.not_gt

/-- A query that begins in a run is counted from its beginning. -/
theorem looked_begun (q : Queries) (moves : List Move) (h : (begun moves)[i]? = some r) :
    ∃ call, (q.run moves).calls[q.calls.length + i]? = some call ∧
      Looked r call (q.countedAs (q.calls.length + i) moves) := by
  induction moves generalizing q i with
  | nil => cases h
  | cons move rest ih =>
    rw [countedAs_cons, countedAs_of_length_le (Nat.le_add_right _ _), List.nil_append]
    have hbegun : begun (move :: rest) = begun [move] ++ begun rest :=
      List.filterMap_append (l := [move])
    rw [hbegun] at h
    rcases lt_or_ge i (begun [move]).length with hi | hi
    · -- The move begins this query.
      rw [List.getElem?_append_left hi] at h
      cases move with
      | enter r' now =>
        obtain rfl : i = 0 := Nat.lt_one_iff.mp hi
        obtain rfl : r' = r := Option.some.inj h
        exact looked_run rest List.getElem?_concat_length (.entered now)
      | prepare j clock => cases h
      | conclude j candidates => cases h
      | leave j => cases h
    · rw [List.getElem?_append_right hi] at h
      have hlater := ih (q.step move) h
      rwa [length_step, Nat.add_assoc, Nat.add_sub_cancel' hi] at hlater

end Queries

end Roster
