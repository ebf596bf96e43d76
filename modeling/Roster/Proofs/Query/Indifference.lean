import Roster.Proofs.Query.HighAvailability

/-!
# What a token is good for

A token decides about the class of a request, and the class about the time to come back. Nothing
else depends on it (`token_decides_class_only`): two requests that are the same but for their tokens
get the same answer, apart from the class and from what is said about the next request, and they
leave the same assembler. That the second holds is due to waits being drawn with the same number of
random words in every class.
-/

namespace Roster

/-- The same visit with another token, or with none. -/
def Visit.withToken (v : Visit) (token : Option String) : Visit :=
  { v with request := { v.request with accessToken := token } }

/-- Answers that differ at most in the class, and in what is said about the next request. -/
structure Response.Alike (x y : Response) : Prop where
  status : x.status = y.status
  problem : x.problem = y.problem
  targets : x.targets = y.targets
  next : x.next.isSome = y.next.isSome

namespace Assembler

variable {a : Assembler} {v : Visit} {r : Request} {policy : Policy}

section Alike

variable (token : Option String) (c d : Priority) (status : ℕ) (title detail : String)

theorem alike_refused :
    (Response.failure { r with accessToken := token } c status title detail none).Alike
      (.failure r d status title detail none) :=
  ⟨rfl, rfl, rfl, rfl⟩

theorem alike_failure (next next' : NextRequest) :
    (Response.failure { r with accessToken := token } c status title detail (some next)).Alike
      (.failure r d status title detail (some next')) :=
  ⟨rfl, rfl, rfl, rfl⟩

end Alike

/-! ## The stages -/

theorem candidatesOf_withToken (token : Option String) :
    a.candidatesOf (v.withToken token) policy = a.candidatesOf v policy :=
  rfl

theorem dice_scheduled (r : Request) (now clock : Instant) :
    (a.scheduled r now clock).2 = a.dice.nextUnit.2 :=
  rfl

theorem paced_withToken (token : Option String) (now clock : Instant) :
    a.paced { r with accessToken := token } now clock = a.paced r now clock := by
  unfold paced
  rw [dice_scheduled, dice_scheduled]

theorem pacedOf_withToken (token : Option String) : a.pacedOf (v.withToken token) = a.pacedOf v :=
  paced_withToken token v.now v.clock

/-- The token does not matter to what is concluded. -/
theorem conclude_withToken (a : Assembler) (r : Request) (policy : Policy) (token : Option String)
    (next next' : NextRequest) (now : Instant) (candidates : Except ReadError (List Entry)) :
    (a.conclude { r with accessToken := token } policy next' now candidates).1.Alike
        (a.conclude r policy next now candidates).1 ∧
      (a.conclude { r with accessToken := token } policy next' now candidates).2 =
        (a.conclude r policy next now candidates).2 := by
  cases candidates with
  | error error => exact ⟨alike_failure token _ _ _ _ _ _ _, rfl⟩
  | ok candidates =>
    dsimp only [conclude]
    split
    · exact ⟨alike_failure token _ _ _ _ _ _ _, rfl⟩
    · exact ⟨⟨rfl, rfl, rfl, rfl⟩, rfl⟩

/-! ## The whole way -/

/-- Two visits with one way have the answers and the assemblers of that way. -/
theorem alike_of_visit {w : Visit} {x y : Response} {b c : Assembler}
    (hw : (a.answer w, a.left w) = (x, b)) (hv : (a.answer v, a.left v) = (y, c))
    (h : x.Alike y ∧ b = c) :
    (a.answer w).Alike (a.answer v) ∧ a.left w = a.left v := by
  cases hw
  cases hv
  exact h

/-- The token does not matter to an answer, but for its class and its further request. -/
theorem answer_withToken (a : Assembler) (v : Visit) (token : Option String) :
    (a.answer (v.withToken token)).Alike (a.answer v) ∧ a.left (v.withToken token) = a.left v := by
  cases hpolicy : policyOf v.request.policy with
  | error detail =>
    refine alike_of_visit (visit_of_unknown (v := v.withToken token) hpolicy)
      (visit_of_unknown hpolicy) ?_
    exact ⟨alike_refused token _ _ _ _ _, rfl⟩
  | ok policy =>
    by_cases hmetro : policy = .metro ∧ v.request.client.metro.isNone
    · refine alike_of_visit (visit_of_missing (v := v.withToken token) hpolicy hmetro)
        (visit_of_missing hpolicy hmetro) ?_
      exact ⟨alike_refused token _ _ _ _ _, rfl⟩
    cases hload : Scheduler.throttleOf (signalOf v) with
    | some reason =>
      refine alike_of_visit (visit_of_throttled (v := v.withToken token) ⟨hpolicy, hmetro⟩ hload)
        (visit_of_throttled ⟨hpolicy, hmetro⟩ hload) ?_
      rw [pacedOf_withToken]
      exact ⟨alike_failure token _ _ _ _ _ _ _, rfl⟩
    | none =>
      refine alike_of_visit (visit_of_admitted (v := v.withToken token) ⟨hpolicy, hmetro⟩ hload)
        (visit_of_admitted ⟨hpolicy, hmetro⟩ hload) ?_
      rw [pacedOf_withToken, candidatesOf_withToken]
      obtain ⟨hanswer, hleft⟩ := conclude_withToken (a.pacedOf v) v.request policy token
        (a.scheduleOf v).1.next (a.scheduleOf (v.withToken token)).1.next v.now
          (a.candidatesOf v policy)
      exact ⟨hanswer, congrArg leave hleft⟩

/-- **A token decides about the class, and about nothing but the class and the next request.** The
    request is answered as it would be with any other token or without one, and it costs the same,
    in the client's count, in flight and in random words. -/
theorem token_decides_class_only (a : Assembler) (v : Visit) (token : Option String) :
    (a.answer (v.withToken token)).Alike (a.answer v) ∧
      a.left (v.withToken token) = a.left v ∧
      ((a.answer (v.withToken token)).priority = .highAvailability ↔
        ∃ key t, v.request.apiKey = some key ∧ key ≠ "" ∧ (a.apiKeys = [] ∨ key ∈ a.apiKeys) ∧
          token = some t ∧ t ≠ "" ∧ a.scheduler.signer.accepts t key v.now) := by
  obtain ⟨hanswer, hleft⟩ := answer_withToken a v token
  refine ⟨hanswer, hleft, ?_⟩
  rw [priority_answer, classify_eq_highAvailability_iff]
  simp only [acceptedKey_eq_some_iff, and_assoc]
  rfl

end Assembler

end Roster
