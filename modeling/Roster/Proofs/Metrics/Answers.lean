import Mathlib.Data.List.Perm.Basic
import Roster.Proofs.Metrics
import Roster.Proofs.Query.Overlap

/-!
# Counting answers

A query is counted when its answer is returned: in the class of the answer, and under its status if
it is a problem. There is one exception. A query that the load forbids is counted for that as soon
as its answer is complete, so that the answers that were returned (`Queries.answers`) and those that
are complete (`Queries.complete`) are looked at apart.

Queries go on in any order, and the lists are in the order in which the queries began. Nothing that
is counted depends on the order, so that everything is said up to permutations
(`QueriesCounted.perm`).
-/

namespace Roster

open Assembler

/-- What the first stage of a query writes to the ledger. -/
def Preparation.noted (preparation : Preparation) (l : Ledger) : Ledger :=
  match preparation with
  | .throttled reason _ => l.count (.throttled reason)
  | _ => l

/-- What a move writes to the ledger. -/
def Queries.noted (q : Queries) (move : Queries.Move) (l : Ledger) : Ledger :=
  match move with
  | .enter _ _ => { l with inFlight := some q.assembler.enter.load.inFlight }
  | .prepare i clock =>
    match q.calls[i]? with
    | some (.entered r now) => (q.assembler.prepare r now clock).1.noted l
    | _ => l
  | .conclude _ _ => l
  | .leave i =>
    match q.calls[i]? with
    | some (.answered response) => recordResponse response l
    | _ => l

namespace Call

/-- What a query has returned. -/
def returned? : Call → Option Response
  | .ended response => response
  | _ => none

/-- A complete answer that is about to be returned. -/
def returning? : Call → Option Response
  | .answered response => some response
  | _ => none

end Call

@[simp] theorem Call.returned?_prepared (r : Request) (now : Instant) (preparation : Preparation) :
    (Call.prepared r now preparation).returned? = none := by
  cases preparation with
  | refused _ => rfl
  | throttled _ _ => rfl
  | admitted _ _ => rfl

namespace Preparation

variable {c : Counter}

theorem queries_noted (preparation : Preparation) (l : Ledger) :
    (preparation.noted l).queries = l.queries := by
  cases preparation with
  | refused _ => rfl
  | throttled _ _ => rfl
  | admitted _ _ => rfl

theorem total_noted_of_ne (preparation : Preparation) (l : Ledger)
    (h : ∀ reason, c ≠ .throttled reason) :
    (preparation.noted l).total c = l.total c := by
  cases preparation with
  | refused _ => rfl
  | throttled reason _ =>
    change (l.count (.throttled reason)).total c = l.total c
    rw [Ledger.total_count, if_neg (h reason), Nat.add_zero]
  | admitted _ _ => rfl

end Preparation

namespace Assembler

instance (response : Response) (status : ℕ) (title : String) :
    Decidable (Fails response status title) :=
  decidable_of_iff (response.status = status ∧ response.problem.map Problem.title = some title)
    (and_congr_right fun _ => by simp)

/-- The answer of a query that the load forbids for a reason. -/
def Throttled (reason : ThrottleReason) (response : Response) : Prop :=
  Fails response (throttleStatus reason).1 (throttleStatus reason).2

instance (reason : ThrottleReason) (response : Response) : Decidable (Throttled reason response) :=
  inferInstanceAs (Decidable (Fails _ _ _))

/-- The statuses of answers that are problems. -/
def problemStatuses : Finset ℕ :=
  {400, 404, 429, 503}

/-- What every answer is like. -/
structure Formed (response : Response) : Prop where
  wellFormed : ∃ r, WellFormed r response
  status : response.status ≠ 200 → response.status ∈ problemStatuses

variable {response : Response} {reason : ThrottleReason}

/-- A failure is one by throttling if its status and title say so. -/
theorem throttled_failure_iff {r : Request} {priority : Priority} {status : ℕ}
    {title detail : String} {next : Option NextRequest} :
    Throttled reason (.failure r priority status title detail next) ↔
      throttleStatus reason = (status, title) := by
  rw [Throttled, fails_failure_iff, Prod.ext_iff, eq_comm, @eq_comm _ title]

theorem formed_failure {r : Request} {priority : Priority} {status : ℕ} {title detail : String}
    {next : Option NextRequest} (hstatus : status ∈ problemStatuses)
    (hnext : next = none ↔ status = 400) :
    Formed (.failure r priority status title detail next) where
  wellFormed := ⟨r, wellFormed_failure (by rintro rfl; revert hstatus; decide) hnext⟩
  status _ := hstatus

/-- The first stage counts the answers that it gives because of the load, and gives
    no others of these. -/
theorem counted_prepare (a : Assembler) (r : Request) (now clock : Instant) (l : Ledger) :
    let prepared := (a.prepare r now clock).1
    (∀ response ∈ (Call.prepared r now prepared).response?, Formed response) ∧
      ∀ reason, (prepared.noted l).total (.throttled reason) = l.total (.throttled reason) +
        (Call.prepared r now prepared).response?.toList.countP (Throttled reason) := by
  have hprepare := prepare_cases a r now clock
  generalize a.prepare r now clock = prepared at hprepare
  cases hprepare with
  | refused title detail faulty =>
    refine ⟨?_, fun reason => ?_⟩
    · rintro _ ⟨⟩
      exact formed_failure (by decide) (by simp)
    · have hnot : ¬ Throttled reason (.failure r (a.classify r now) 400 title detail none) := by
        rw [throttled_failure_iff]
        cases reason with
        | capacityExhausted => simp [throttleStatus]
        | clientRateExceeded => simp [throttleStatus]
      simp [Preparation.noted, Call.prepared, Call.response?, hnot]
  | @throttled policy throttled asks load =>
    refine ⟨?_, fun reason => ?_⟩
    · rintro _ ⟨⟩
      cases throttled with
      | capacityExhausted => exact formed_failure (by decide) (by simp [throttleStatus])
      | clientRateExceeded => exact formed_failure (by decide) (by simp [throttleStatus])
    · have hiff : Counter.throttled reason = .throttled throttled ↔
          throttleStatus reason = throttleStatus throttled := by
        rw [Counter.throttled.injEq]
        cases reason <;> cases throttled <;> decide
      simp [Preparation.noted, Call.prepared, Call.response?, List.countP_singleton,
        throttled_failure_iff, ← hiff]
  | admitted asks load => exact ⟨nofun, fun reason => rfl⟩

/-- What is concluded is well formed, and has not been throttled. -/
theorem counted_conclude (a : Assembler) (r : Request) (policy : Policy) (next : NextRequest)
    (now : Instant) (candidates : Except ReadError (List Entry)) :
    Formed (a.conclude r policy next now candidates).1 ∧
      ∀ reason, ¬ Throttled reason (a.conclude r policy next now candidates).1 := by
  refine ⟨⟨⟨r, wellFormed_conclude next now candidates⟩, ?status⟩, ?throttled⟩
  case status =>
    cases candidates with
    | error _ => exact fun _ => (by decide : 503 ∈ problemStatuses)
    | ok candidates =>
      rw [conclude_ok]
      split
      · exact fun _ => (by decide : 404 ∈ problemStatuses)
      · exact fun h => absurd rfl h
  case throttled =>
    obtain ⟨-, hrate, hcapacity⟩ := conclude_late a r policy next now candidates
    intro reason
    cases reason with
    | capacityExhausted => exact hcapacity
    | clientRateExceeded => exact fun h => hrate h.1

/-- Each answer is counted in its class, and if it is a problem under its status. -/
theorem total_recordResponse (formed : Formed response) (l : Ledger) (c : Counter) :
    (recordResponse response l).total c =
      l.total c + (if c = .queries response.priority then 1 else 0) +
      if response.status ≠ 200 ∧ c = .queryErrors response.status then 1 else 0 := by
  obtain ⟨r, wellFormed⟩ := formed.wellFormed
  have hclass :
      (Ledger.count { l with queries := l.queries + 1 } (.queries response.priority)).total c =
        l.total c + if c = .queries response.priority then 1 else 0 :=
    Ledger.total_count { l with queries := l.queries + 1 } _ c
  cases hproblem : response.problem with
  | none =>
    have hstatus : response.status = 200 := wellFormed.problem.mp hproblem
    simp [recordResponse, hproblem, hstatus, hclass]
  | some problem =>
    have hstatus : response.status ≠ 200 := fun h => by
      rw [wellFormed.problem.mpr h] at hproblem
      cases hproblem
    have htold : problem.status = response.status := (wellFormed.told problem hproblem).1
    simp [recordResponse, hproblem, hstatus, hclass, htold]

end Assembler

namespace Queries

/-- The answers that were returned. -/
def answers (q : Queries) : List Response :=
  q.calls.filterMap Call.returned?

/-- The answers that are complete and about to be returned. -/
def pending (q : Queries) : List Response :=
  q.calls.filterMap Call.returning?

/-- All answers that are complete. -/
def complete (q : Queries) : List Response :=
  q.calls.filterMap Call.response?

/-- What is complete has been answered or is pending. -/
theorem countP_complete (q : Queries) (p : Response → Bool) :
    q.complete.countP p = q.answers.countP p + q.pending.countP p := by
  unfold complete answers pending
  induction q.calls with
  | nil => rfl
  | cons call rest ih =>
    simp only [List.filterMap_cons]
    cases call with
    | entered r now => exact ih
    | reading r now policy next => exact ih
    | answered response =>
      simp only [Call.response?, Call.returned?, Call.returning?, List.countP_cons]
      omega
    | ended response =>
      cases response with
      | none => exact ih
      | some response =>
        simp only [Call.response?, Call.returned?, Call.returning?, List.countP_cons]
        omega

theorem pending_eq_nil {q : Queries} (h : ∀ call ∈ q.calls, call.underWay = false) :
    q.pending = [] := by
  refine List.filterMap_eq_nil_iff.mpr fun call hcall => ?_
  have hended := h call hcall
  cases call with
  | ended _ => rfl
  | _ => cases hended

theorem answers_subset (q : Queries) : q.answers ⊆ q.complete := by
  intro response h
  obtain ⟨call, hcall, hreturned⟩ := List.mem_filterMap.mp h
  refine List.mem_filterMap.mpr ⟨call, hcall, ?_⟩
  cases call with
  | ended _ => exact hreturned
  | _ => cases hreturned

/-- What is told of the calls after one of them has gone on, in whatever order. -/
theorem perm_filterMap_set (f : Call → Option Response) {calls : List Call} {i : ℕ} {old : Call}
    (hcall : calls[i]? = some old) (new : Call) :
    ((f old).toList ++ (calls.set i new).filterMap f).Perm
      ((f new).toList ++ calls.filterMap f) := by
  obtain ⟨hi, rfl⟩ := List.getElem?_eq_some_iff.mp hcall
  have hset := (List.set_perm_cons_eraseIdx hi new).filterMap f
  have hold := (List.getElem_cons_eraseIdx_perm hi).filterMap f
  have hcons (call : Call) (rest : List Call) :
      (call :: rest).filterMap f = (f call).toList ++ rest.filterMap f := by
    rw [List.filterMap_cons]
    cases f call with
    | none => rfl
    | some _ => rfl
  rw [hcons] at hset hold
  exact (hset.append_left _).trans (List.perm_append_comm_assoc _ _ _ |>.trans (hold.append_left _))

end Queries

/-- The status of an answer that is a problem. -/
def Response.error? (response : Response) : Option ℕ :=
  if response.status = 200 then none else some response.status

theorem Response.error?_eq_some_iff {response : Response} {status : ℕ} :
    response.error? = some status ↔ response.status ≠ 200 ∧ response.status = status := by
  unfold error?
  split
  · next h => exact iff_of_false nofun fun hproblem => hproblem.1 h
  · next h => simp [h]

/-- What the ledger says about queries is what their answers say. -/
structure QueriesCounted (l : Ledger) (answers complete : List Response) : Prop where
  ended : l.queries = answers.length
  classes : ∀ priority, l.total (.queries priority) = (answers.map Response.priority).count priority
  errors : ∀ status, l.total (.queryErrors status) =
    (answers.filterMap Response.error?).count status
  throttled : ∀ reason, l.total (.throttled reason) = complete.countP (Throttled reason)
  formed : ∀ response ∈ complete, Formed response

namespace QueriesCounted

variable {l l' : Ledger} {answers answers' complete complete' : List Response}

theorem congr (h : QueriesCounted l answers complete) (agree : Ledger.Agree .query l l') :
    QueriesCounted l' answers complete where
  ended := (agree.queries rfl).trans h.ended
  classes _ := (agree.totals _ rfl).trans (h.classes _)
  errors _ := (agree.totals _ rfl).trans (h.errors _)
  throttled _ := (agree.totals _ rfl).trans (h.throttled _)
  formed := h.formed

/-- The order of the answers does not matter. -/
theorem perm (h : QueriesCounted l answers complete) (hanswers : answers'.Perm answers)
    (hcomplete : complete'.Perm complete) : QueriesCounted l answers' complete' where
  ended := h.ended.trans hanswers.length_eq.symm
  classes priority := (h.classes priority).trans ((hanswers.map _).count_eq priority).symm
  errors status := (h.errors status).trans ((hanswers.filterMap _).count_eq status).symm
  throttled reason := (h.throttled reason).trans (hcomplete.countP_eq _).symm
  formed response hresponse := h.formed response (hcomplete.mem_iff.mp hresponse)

/-- An answer is returned. -/
theorem returned {response : Response} (h : QueriesCounted l answers complete)
    (formed : Formed response) :
    QueriesCounted (recordResponse response l) (response :: answers) complete where
  ended := by
    rw [List.length_cons, ← h.ended, recordResponse]
    split
    · rfl
    · rfl
  classes priority := by
    rw [total_recordResponse formed, h.classes, List.map_cons, ← List.singleton_append,
      List.count_append, count_singleton_eq]
    simp [Nat.add_comm]
  errors status := by
    rw [total_recordResponse formed, h.errors, List.filterMap_cons, Response.error?]
    by_cases hproblem : response.status = 200
    · simp [hproblem]
    · obtain rfl | hne := eq_or_ne response.status status
      · simp [hproblem]
      · simp [hproblem, hne, hne.symm]
  throttled reason := by
    rw [total_recordResponse formed, h.throttled]
    simp
  formed := h.formed

/-- A stage has completed an answer, or none, and has counted it if the load forbade it. -/
theorem completed {new : Option Response} (h : QueriesCounted l answers complete)
    (queries : l'.queries = l.queries)
    (totals : ∀ c, (∀ reason, c ≠ .throttled reason) → l'.total c = l.total c)
    (throttled : ∀ reason, l'.total (.throttled reason) =
      l.total (.throttled reason) + new.toList.countP (Throttled reason))
    (formed : ∀ response ∈ new, Formed response) :
    QueriesCounted l' answers (new.toList ++ complete) where
  ended := queries.trans h.ended
  classes priority := (totals _ fun _ => Counter.noConfusion).trans (h.classes priority)
  errors status := (totals _ fun _ => Counter.noConfusion).trans (h.errors status)
  throttled reason := by rw [throttled, h.throttled, List.countP_append, Nat.add_comm]
  formed response hresponse := by
    rcases List.mem_append.mp hresponse with hnew | hbefore
    · exact formed response (Option.mem_toList.mp hnew)
    · exact h.formed response hbefore

/-- **Each query is counted with its answer**, and before that if the load forbids it. -/
theorem step {q : Queries} (h : QueriesCounted l q.answers q.complete) (move : Queries.Move) :
    QueriesCounted (q.noted move l) (q.step move).answers (q.step move).complete := by
  cases move with
  | enter r now =>
    have hanswers : (q.step (.enter r now)).answers = q.answers := by
      simp [Queries.step, Queries.answers, Call.returned?]
    have hcomplete : (q.step (.enter r now)).complete = q.complete := by
      simp [Queries.step, Queries.complete, Call.response?]
    rw [hanswers, hcomplete]
    exact ⟨h.ended, h.classes, h.errors, h.throttled, h.formed⟩
  | prepare i clock =>
    dsimp only [Queries.noted, Queries.step]
    cases hcall : q.calls[i]? with
    | none => exact h
    | some call =>
      cases call with
      | entered r now =>
        obtain ⟨formed, throttled⟩ := counted_prepare q.assembler r now clock l
        refine (h.completed (Preparation.queries_noted _ l)
          (fun c => Preparation.total_noted_of_ne _ l)
          throttled formed).perm ?_ (Queries.perm_filterMap_set Call.response? hcall _)
        have hperm := Queries.perm_filterMap_set Call.returned? hcall
          (.prepared r now (q.assembler.prepare r now clock).1)
        rwa [Call.returned?_prepared] at hperm
      | _ => exact h
  | conclude i candidates =>
    dsimp only [Queries.noted, Queries.step]
    cases hcall : q.calls[i]? with
    | none => exact h
    | some call =>
      cases call with
      | reading r now policy next =>
        obtain ⟨formed, unthrottled⟩ := counted_conclude q.assembler r policy next now candidates
        set response := (q.assembler.conclude r policy next now candidates).1
        have hcomplete : QueriesCounted l q.answers ((some response).toList ++ q.complete) := by
          refine h.completed rfl (fun _ _ => rfl) (fun reason => ?_) ?_
          · simp [unthrottled reason]
          · rintro _ ⟨⟩
            exact formed
        exact hcomplete.perm (Queries.perm_filterMap_set Call.returned? hcall _)
          (Queries.perm_filterMap_set Call.response? hcall _)
      | _ => exact h
  | leave i =>
    dsimp only [Queries.noted, Queries.step]
    cases hcall : q.calls[i]? with
    | none => exact h
    | some call =>
      cases call with
      | entered r now =>
        exact h.perm (Queries.perm_filterMap_set Call.returned? hcall _)
          (Queries.perm_filterMap_set Call.response? hcall _)
      | reading r now policy next =>
        exact h.perm (Queries.perm_filterMap_set Call.returned? hcall _)
          (Queries.perm_filterMap_set Call.response? hcall _)
      | answered response =>
        have formed : Formed response :=
          h.formed response (List.mem_filterMap.mpr ⟨_, List.mem_of_getElem? hcall, rfl⟩)
        exact (h.returned formed).perm (Queries.perm_filterMap_set Call.returned? hcall _)
          (Queries.perm_filterMap_set Call.response? hcall (.ended (some response))).cons_inv
      | ended response => exact h

end QueriesCounted

namespace Queries

variable {w : Writer}

theorem agree_recordResponse (hw : w ≠ .query) (response : Response) (l : Ledger) :
    Ledger.Agree w l (recordResponse response l) := by
  have hqueries : Ledger.Agree w l { l with queries := l.queries + 1 } :=
    ⟨fun _ _ => rfl, fun _ => rfl, fun h => absurd h hw⟩
  have hclass := hqueries.trans (Ledger.agree_add (c := .queries response.priority) hw.symm 1)
  cases hproblem : response.problem with
  | none =>
    rw [recordResponse, hproblem]
    exact hclass
  | some problem =>
    rw [recordResponse, hproblem]
    exact hclass.trans (Ledger.agree_add (c := .queryErrors problem.status) hw.symm 1)

theorem agree_noted (hw : w ≠ .query) (q : Queries) (move : Move) (l : Ledger) :
    Ledger.Agree w l (q.noted move l) := by
  cases move with
  | enter r now => exact ⟨fun _ _ => rfl, fun _ => rfl, fun _ => rfl⟩
  | prepare i clock =>
    dsimp only [noted]
    split
    · next r now hcall =>
      cases (q.assembler.prepare r now clock).1 with
      | throttled reason _ => exact Ledger.agree_add (c := .throttled reason) hw.symm 1
      | refused _ => exact .refl w l
      | admitted _ _ => exact .refl w l
    · exact .refl w l
  | conclude i candidates => exact .refl w l
  | leave i =>
    dsimp only [noted]
    split
    · next response hcall => exact agree_recordResponse hw response l
    · exact .refl w l

end Queries

end Roster
