import Roster.Proofs.Query.Load
import Roster.Proofs.Query.Visit

/-!
# What decides the status of an answer

Six things can become of a request, and the first cause that applies decides which one it is
(`answer_decided`): the request is faulty, the server is full, the client comes too often, the table
cannot be read, nothing in it serves the client, or none of these. The causes are stated here as
what they are about and not as the branch that finds them: a fault is one of the request alone
(`Request.Faulty`), and the load is the number of requests in flight and that of the client's.

Everybody who makes a problem makes it with `Response.failure`, so that the status, the problem and
what is left out of an answer agree (`wellFormed_answer`).
-/

namespace Roster

/-! ## Faults -/

/-- A policy is read by its label. -/
theorem Policy.parse?_eq_some_iff {name : String} {policy : Policy} :
    Policy.parse? name = some policy ↔ name = policy.label := by
  constructor
  · intro h
    unfold Policy.parse? at h
    split at h
    all_goals cases h
    all_goals rfl
  · rintro rfl
    cases policy with
    | geo => rfl
    | geoOptions => rfl
    | random => rfl
    | metro => rfl
    | all => rfl

/-- A request that names a policy that there is not, or the one that goes by a metro
    without giving one. -/
def Request.Faulty (r : Request) : Prop :=
  (∃ name, r.policy = some name ∧ name ≠ "" ∧ ∀ policy : Policy, name ≠ policy.label) ∨
    (r.policy = some Policy.metro.label ∧ r.client.metro = none)

namespace Assembler

variable {r : Request} {policy : Policy}

theorem policyOf_of_some {name : String} (h : name ≠ "") :
    policyOf (some name) =
      match Policy.parse? name with
      | some policy => .ok policy
      | none => .error (Policy.parseMessage name) := by
  unfold policyOf
  split
  · next heq => cases heq
  · next heq => exact absurd (Option.some.inj heq) h
  · next heq =>
    obtain rfl := Option.some.inj heq
    rfl

/-- A policy is unknown if it is named and no policy has the name. -/
theorem policyOf_eq_error_iff : (∃ detail, policyOf r.policy = .error detail) ↔
    ∃ name, r.policy = some name ∧ name ≠ "" ∧ ∀ policy : Policy, name ≠ policy.label := by
  cases hpolicy : r.policy with
  | none => exact iff_of_false (fun ⟨_, h⟩ => nomatch h) (fun ⟨_, h, _⟩ => nomatch h)
  | some name =>
    by_cases hempty : name = ""
    · subst hempty
      exact iff_of_false (fun ⟨_, h⟩ => nomatch h)
        (fun ⟨_, h, hne, _⟩ => hne (Option.some.inj h).symm)
    rw [policyOf_of_some hempty]
    cases hparse : Policy.parse? name with
    | none =>
      refine iff_of_true ⟨_, rfl⟩ ⟨name, rfl, hempty, fun policy hlabel => ?_⟩
      rw [Policy.parse?_eq_some_iff.mpr hlabel] at hparse
      cases hparse
    | some policy =>
      refine iff_of_false (fun ⟨_, h⟩ => nomatch h) ?_
      rintro ⟨_, hname, -, hunknown⟩
      rw [← Option.some.inj hname] at hunknown
      exact hunknown policy (Policy.parse?_eq_some_iff.mp hparse)

theorem policyOf_eq_metro_iff {name : Option String} :
    policyOf name = .ok .metro ↔ name = some Policy.metro.label := by
  cases name with
  | none => exact iff_of_false nofun nofun
  | some name =>
    by_cases hempty : name = ""
    · subst hempty
      exact iff_of_false nofun (by decide)
    rw [policyOf_of_some hempty, Option.some.injEq, ← Policy.parse?_eq_some_iff]
    cases Policy.parse? name with
    | none => exact iff_of_false nofun nofun
    | some policy => simp

/-- A request that is not faulty asks for something under a policy. -/
theorem not_faulty_iff : ¬ r.Faulty ↔ ∃ policy, Asks r policy := by
  have hasks (policy : Policy) : Asks r policy ↔
      policyOf r.policy = .ok policy ∧ ¬ (policy = .metro ∧ r.client.metro.isNone) :=
    ⟨fun h => ⟨h.known, h.metro⟩, fun h => ⟨h.1, h.2⟩⟩
  simp only [hasks]
  rw [Request.Faulty, ← policyOf_eq_error_iff, ← policyOf_eq_metro_iff,
    Option.isNone_iff_eq_none.symm]
  cases policyOf r.policy with
  | error detail => simp
  | ok policy => simp

end Assembler

/-! ## The load -/

namespace Scheduler

variable {load : LoadSignal}

theorem throttleOf_of_full (h : load.capacityExhausted) :
    throttleOf load = some .capacityExhausted :=
  if_pos h

theorem throttleOf_of_often (hroom : ¬ load.capacityExhausted) (h : load.clientRateExceeded) :
    throttleOf load = some .clientRateExceeded := by
  rw [throttleOf, if_neg hroom, if_pos h]

theorem throttleOf_of_free (hroom : ¬ load.capacityExhausted) (h : ¬ load.clientRateExceeded) :
    throttleOf load = none := by
  rw [throttleOf, if_neg hroom, if_neg h]

/-- A request is turned away for capacity exactly if it is exhausted. -/
theorem throttleOf_eq_full_iff :
    throttleOf load = some .capacityExhausted ↔ load.capacityExhausted := by
  constructor
  · intro h
    by_contra hroom
    rw [throttleOf, if_neg hroom] at h
    split at h
    · cases h
    · cases h
  · exact throttleOf_of_full

/-- A request is turned away for its rate exactly if that is exceeded and there is room. -/
theorem throttleOf_eq_often_iff :
    throttleOf load = some .clientRateExceeded ↔
      load.clientRateExceeded ∧ ¬ load.capacityExhausted := by
  constructor
  · intro h
    unfold throttleOf at h
    split at h
    · cases h
    · next hroom =>
      split at h
      · next hoften => exact ⟨hoften, hroom⟩
      · cases h
  · rintro ⟨hoften, hroom⟩
    exact throttleOf_of_often hroom hoften

end Scheduler

namespace Assembler

variable {a : Assembler} {v : Visit} {policy : Policy}

/-- A visit that makes more requests in flight than the server is sized for. -/
def Full (v : Visit) : Prop :=
  max v.load.limits.capacity 1 < v.load.inFlight + 1

/-- A visit of a client that comes more often than it may. -/
def Often (v : Visit) : Prop :=
  ∃ address, v.request.client.address = some address ∧
    v.load.limits.clientRequests < (v.load.requestsOf v.clock address).toNat

theorem capacityExhausted_signalOf_iff : (signalOf v).capacityExhausted ↔ Full v :=
  v.load.enter.capacityExhausted_signal_iff v.clock v.request.client.address

theorem clientRateExceeded_signalOf_iff : (signalOf v).clientRateExceeded ↔ Often v :=
  v.load.enter.clientRateExceeded_signal_iff v.clock v.request.client.address

/-! ## Well-formed answers -/

/-- An answer whose parts agree. -/
structure WellFormed (r : Request) (response : Response) : Prop where
  problem : response.problem = none ↔ response.status = 200
  targets : response.targets ≠ [] ↔ response.status = 200
  /-- a problem says the same as the status, and what it is about -/
  told : ∀ problem, response.problem = some problem →
    problem.status = response.status ∧ problem.path = r.path
  next : response.next = none ↔ response.status = 400

/-- The answer says that there is a problem. -/
def Fails (response : Response) (status : ℕ) (title : String) : Prop :=
  response.status = status ∧ ∃ problem, response.problem = some problem ∧ problem.title = title

section Failing

variable {r : Request} {priority : Priority} {status : ℕ} {title detail : String}
  {next : Option NextRequest}

theorem wellFormed_failure (hstatus : status ≠ 200) (hnext : next = none ↔ status = 400) :
    WellFormed r (.failure r priority status title detail next) where
  problem := iff_of_false nofun hstatus
  targets := iff_of_false (fun h => h rfl) hstatus
  told := by
    rintro _ ⟨⟩
    exact ⟨rfl, rfl⟩
  next := hnext

theorem fails_failure_iff {status' : ℕ} {title' : String} :
    Fails (.failure r priority status title detail next) status' title' ↔
      status = status' ∧ title = title' :=
  and_congr_right fun _ => ⟨fun ⟨_, h, htitle⟩ => by cases h; exact htitle, fun h => ⟨_, rfl, h⟩⟩

end Failing

/-- What is concluded is well formed. -/
theorem wellFormed_conclude {r : Request} (next : NextRequest) (now : Instant)
    (candidates : Except ReadError (List Entry)) :
    WellFormed r (a.conclude r policy next now candidates).1 := by
  cases candidates with
  | error _ => exact wellFormed_failure (by decide) (by simp)
  | ok candidates =>
    rw [conclude_ok]
    split
    · exact wellFormed_failure (by decide) (by simp)
    · next hselected =>
      exact {
        problem := iff_of_true rfl rfl
        targets := iff_of_true (by simpa using hselected) rfl
        told := nofun
        next := iff_of_false nofun (by simp) }

/-! ## One cause after another -/

theorem answer_of_faulty (h : v.request.Faulty) :
    ∃ title detail, a.answer v =
      .failure v.request (a.classify v.request v.now) 400 title detail none := by
  cases hpolicy : policyOf v.request.policy with
  | error detail => exact ⟨_, _, (Prod.mk.inj (visit_of_unknown hpolicy)).1⟩
  | ok policy =>
    have hmetro : policy = .metro ∧ v.request.client.metro.isNone := by
      by_contra hmetro
      exact not_faulty_iff.mpr ⟨policy, ⟨hpolicy, hmetro⟩⟩ h
    exact ⟨_, _, (Prod.mk.inj (visit_of_missing hpolicy hmetro)).1⟩

theorem answer_of_full (hfaulty : ¬ v.request.Faulty) (h : Full v) :
    a.answer v = .failure v.request (a.classify v.request v.now) 503 "capacity exhausted"
      "retry after next_request.not_before" (some (a.scheduleOf v).1.next) := by
  obtain ⟨policy, hasks⟩ := not_faulty_iff.mp hfaulty
  have hload := Scheduler.throttleOf_of_full (capacityExhausted_signalOf_iff.mpr h)
  exact (Prod.mk.inj (visit_of_throttled hasks hload)).1

theorem answer_of_often (hfaulty : ¬ v.request.Faulty) (hfull : ¬ Full v) (h : Often v) :
    a.answer v = .failure v.request (a.classify v.request v.now) 429 "client rate exceeded"
      "retry after next_request.not_before" (some (a.scheduleOf v).1.next) := by
  obtain ⟨policy, hasks⟩ := not_faulty_iff.mp hfaulty
  have hload := Scheduler.throttleOf_of_often (mt capacityExhausted_signalOf_iff.mp hfull)
    (clientRateExceeded_signalOf_iff.mpr h)
  exact (Prod.mk.inj (visit_of_throttled hasks hload)).1

theorem answer_of_free (hasks : Asks v.request policy) (hfull : ¬ Full v) (hoften : ¬ Often v) :
    a.answer v = ((a.pacedOf v).conclude v.request policy (a.scheduleOf v).1.next v.now
      (a.candidatesOf v policy)).1 := by
  have hload := Scheduler.throttleOf_of_free (mt capacityExhausted_signalOf_iff.mp hfull)
    (mt clientRateExceeded_signalOf_iff.mp hoften)
  exact (Prod.mk.inj (visit_of_admitted hasks hload)).1

/-- What the last stage answers. -/
theorem conclude_decided (a : Assembler) (r : Request) (policy : Policy) (next : NextRequest)
    (now : Instant) (candidates : Except ReadError (List Entry)) :
    let response := (a.conclude r policy next now candidates).1
    (Fails response 503 "rate table unavailable" ↔ ∃ error, candidates = .error error) ∧
      ∀ read, candidates = .ok read →
        let selected := (a.selector.select policy read r.client a.dice).1
        (response.status = 404 ↔ selected = []) ∧
          (selected ≠ [] → response.status = 200 ∧
            response.targets = selected.map (Target.ofEntry a.services)) := by
  intro response
  cases candidates with
  | error error => exact ⟨iff_of_true ⟨rfl, _, rfl, rfl⟩ ⟨error, rfl⟩, nofun⟩
  | ok read =>
    have hresponse : response = _ := conclude_ok
    by_cases hselected : (a.selector.select policy read r.client a.dice).1 = []
    · rw [if_pos hselected] at hresponse
      rw [hresponse, fails_failure_iff]
      refine ⟨iff_of_false (by decide) nofun, ?_⟩
      rintro _ ⟨⟩
      exact ⟨iff_of_true rfl hselected, fun h => absurd hselected h⟩
    · rw [if_neg hselected] at hresponse
      rw [hresponse]
      refine ⟨iff_of_false (fun h => nomatch h.1) nofun, ?_⟩
      rintro _ ⟨⟩
      exact ⟨iff_of_false nofun hselected, fun _ => ⟨rfl, rfl⟩⟩

/-- It is none of what comes before it. -/
theorem conclude_late (a : Assembler) (r : Request) (policy : Policy) (next : NextRequest)
    (now : Instant) (candidates : Except ReadError (List Entry)) :
    let response := (a.conclude r policy next now candidates).1
    response.status ≠ 400 ∧ response.status ≠ 429 ∧ ¬ Fails response 503 "capacity exhausted" := by
  intro response
  cases candidates with
  | error error => exact ⟨nofun, nofun, mt fails_failure_iff.mp (by decide)⟩
  | ok read =>
    have hresponse : response = _ := conclude_ok
    rw [hresponse]
    split
    · exact ⟨nofun, nofun, mt fails_failure_iff.mp (by decide)⟩
    · exact ⟨nofun, nofun, fun h => nomatch h.1⟩

/-- Every answer is well formed. -/
theorem wellFormed_answer (a : Assembler) (v : Visit) : WellFormed v.request (a.answer v) := by
  by_cases hfaulty : v.request.Faulty
  · obtain ⟨title, detail, hanswer⟩ := answer_of_faulty (a := a) hfaulty
    rw [hanswer]
    exact wellFormed_failure (by decide) (by simp)
  by_cases hfull : Full v
  · rw [answer_of_full hfaulty hfull]
    exact wellFormed_failure (by decide) (by simp)
  by_cases hoften : Often v
  · rw [answer_of_often hfaulty hfull hoften]
    exact wellFormed_failure (by decide) (by simp)
  obtain ⟨policy, hasks⟩ := not_faulty_iff.mp hfaulty
  rw [answer_of_free hasks hfull hoften]
  exact wellFormed_conclude _ _ _

/-- **The first cause decides.** The parts of an answer agree. It is given to a faulty
    request, or else the server is full, or else the client comes too often, or else the table
    cannot be read, or else no target is selected. Otherwise the targets are those that are
    selected, in their order. -/
theorem answer_decided (a : Assembler) (v : Visit) :
    WellFormed v.request (a.answer v) ∧
      ((a.answer v).status = 400 ↔ v.request.Faulty) ∧
      (¬ v.request.Faulty →
        (Fails (a.answer v) 503 "capacity exhausted" ↔ Full v) ∧
        (¬ Full v →
          ((a.answer v).status = 429 ↔ Often v) ∧
          (¬ Often v → ∃ policy, policyOf v.request.policy = .ok policy ∧
            (Fails (a.answer v) 503 "rate table unavailable" ↔
              ∃ error, a.candidatesOf v policy = .error error) ∧
            ∀ read, a.candidatesOf v policy = .ok read →
              let selected := (a.selector.select policy read v.request.client (a.scheduleOf v).2).1
              ((a.answer v).status = 404 ↔ selected = []) ∧
                (selected ≠ [] → (a.answer v).status = 200 ∧
                  (a.answer v).targets = selected.map (Target.ofEntry a.services))))) := by
  refine ⟨wellFormed_answer a v, ?_⟩
  by_cases hfaulty : v.request.Faulty
  · obtain ⟨title, detail, hanswer⟩ := answer_of_faulty (a := a) hfaulty
    rw [hanswer]
    exact ⟨iff_of_true rfl hfaulty, fun h => absurd hfaulty h⟩
  by_cases hfull : Full v
  · rw [answer_of_full hfaulty hfull]
    refine ⟨iff_of_false nofun hfaulty, fun _ => ⟨?_, fun h => absurd hfull h⟩⟩
    exact iff_of_true (fails_failure_iff.mpr ⟨rfl, rfl⟩) hfull
  by_cases hoften : Often v
  · rw [answer_of_often hfaulty hfull hoften]
    refine ⟨iff_of_false nofun hfaulty, fun _ => ⟨?_, fun _ => ⟨?_, fun h => absurd hoften h⟩⟩⟩
    · exact iff_of_false (mt fails_failure_iff.mp (by decide)) hfull
    · exact iff_of_true rfl hoften
  obtain ⟨policy, hasks⟩ := not_faulty_iff.mp hfaulty
  have hanswer := answer_of_free (a := a) hasks hfull hoften
  have hconclude := conclude_decided (a.pacedOf v) v.request policy
    (a.scheduleOf v).1.next v.now (a.candidatesOf v policy)
  rw [← hanswer] at hconclude
  have hlate := conclude_late (a.pacedOf v) v.request policy
    (a.scheduleOf v).1.next v.now (a.candidatesOf v policy)
  rw [← hanswer] at hlate
  refine ⟨iff_of_false hlate.1 hfaulty, fun _ => ⟨iff_of_false hlate.2.2 hfull, fun _ => ?_⟩⟩
  exact ⟨iff_of_false hlate.2.1 hoften, fun _ => ⟨policy, hasks.known, hconclude⟩⟩

end Assembler

end Roster
