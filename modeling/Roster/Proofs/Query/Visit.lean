import Roster.Proofs.Read.Interleaved
import Roster.Query.Assembler

/-!
# Visits

What an answer depends on, beside the assembler's settings, is gathered in a `Visit`: the request
and its time, and everything that other requests and the synchronizer may have changed by then,
which is the load, the random words and the table with what is still to come. Nothing is assumed of
these, so that what is proved of a visit holds of a request in whatever company it comes.

`answer_cases` is what the answer can be. Visits come one after another (`history`), but no visit
changes the settings, so that an answer does not depend on the ones before it (`history_eq`).
-/

namespace Roster

/-- A request, and all that it meets. -/
structure Visit where
  request : Request
  now : Instant
  /-- what measures the clients' windows -/
  clock : Instant
  load : LoadMonitor
  dice : Dice
  table : RateTable
  /-- what happens in the backends while the answer is made -/
  moments : List Moment := []

namespace Assembler

variable {a : Assembler} {v : Visit} {policy : Policy}

/-- The assembler as a visit finds it. -/
def meet (a : Assembler) (v : Visit) : Assembler :=
  { a with load := v.load, dice := v.dice }

/-- The answer that a visit gets. -/
def answer (a : Assembler) (v : Visit) : Response :=
  ((assemble RateTable.amid (a.meet v) v.request v.now v.clock).run (v.table, v.moments)).run.1.1

/-- The assembler that a visit leaves. -/
def left (a : Assembler) (v : Visit) : Assembler :=
  ((assemble RateTable.amid (a.meet v) v.request v.now v.clock).run (v.table, v.moments)).run.1.2

/-- The load that the request of a visit sees. -/
def signalOf (v : Visit) : LoadSignal :=
  (v.load.enter.signal v.clock v.request.client.address).1

/-- When the client of a request is told to come back, and the words that are left. -/
def scheduled (a : Assembler) (r : Request) (now clock : Instant) : Schedule × Dice :=
  a.scheduler.schedule (a.classify r now) now (a.load.signal clock r.client.address).1 r.service
    (a.acceptedKey r.apiKey) a.dice

/-- What the scheduler says to a visit. -/
def scheduleOf (a : Assembler) (v : Visit) : Schedule × Dice :=
  (a.meet v).enter.scheduled v.request v.now v.clock

/-- The assembler when the client of a request has been counted and its next request scheduled. -/
def paced (a : Assembler) (r : Request) (now clock : Instant) : Assembler :=
  { a with
    load := (a.load.signal clock r.client.address).2
    dice := (a.scheduled r now clock).2 }

/-- The assembler after the scheduler has spoken to a visit. -/
def pacedOf (a : Assembler) (v : Visit) : Assembler :=
  (a.meet v).enter.paced v.request v.now v.clock

/-- What the readers of a visit find. The ledger has been written to by then. -/
def candidatesOf (a : Assembler) (v : Visit) (policy : Policy) : Except ReadError (List Entry) :=
  RateTable.candidatesAmid
    { v.table with
      ledger := { v.table.ledger with inFlight := some ((a.meet v).enter.load.inFlight) } }
    v.moments v.request.service policy.tableName

/-- The three stages, and what is left after them. -/
theorem run_assemble (a : Assembler) (v : Visit) :
    ((assemble RateTable.amid (a.meet v) v.request v.now v.clock).run (v.table, v.moments)).run.1 =
      match (a.meet v).enter.prepare v.request v.now v.clock with
      | (.refused response, b) => (response, b.leave)
      | (.throttled _ response, b) => (response, b.leave)
      | (.admitted policy next, b) =>
        let concluded := b.conclude v.request policy next v.now (a.candidatesOf v policy)
        (concluded.1, concluded.2.leave) := by
  unfold assemble
  generalize hprepare : (a.meet v).enter.prepare v.request v.now v.clock = prepared
  obtain ⟨preparation, b⟩ := prepared
  cases preparation with
  | refused response => simp only [hprepare]; rfl
  | throttled reason response => simp only [hprepare]; rfl
  | admitted policy next => simp only [hprepare]; rfl

/-- The answer as the three stages make it. -/
theorem answer_eq (a : Assembler) (v : Visit) :
    a.answer v =
      match (a.meet v).enter.prepare v.request v.now v.clock with
      | (.refused response, _) => response
      | (.throttled _ response, _) => response
      | (.admitted policy next, b) =>
        (b.conclude v.request policy next v.now (a.candidatesOf v policy)).1 := by
  rw [answer, run_assemble]
  split
  · rfl
  · rfl
  · rfl

/-! ## The first stage -/

section Preparing

variable {r : Request} {now clock : Instant}

theorem prepare_of_unknown {detail : String} (h : policyOf r.policy = .error detail) :
    a.prepare r now clock =
      (.refused (.failure r (a.classify r now) 400 "unknown policy" detail none), a) := by
  simp only [prepare, h]

theorem prepare_of_missing (h : policyOf r.policy = .ok policy)
    (hmetro : policy = .metro ∧ r.client.metro.isNone) :
    a.prepare r now clock =
      (.refused (.failure r (a.classify r now) 400 "missing metro"
        "the metro policy requires a metro parameter" none), a) := by
  simp only [prepare, h, if_pos hmetro]

theorem throttle_scheduled (a : Assembler) (r : Request) (now clock : Instant) :
    (a.scheduled r now clock).1.throttle =
      Scheduler.throttleOf (a.load.signal clock r.client.address).1 :=
  rfl

theorem pace_eq_admitted
    (h : Scheduler.throttleOf (a.load.signal clock r.client.address).1 = none) :
    a.pace r policy now clock =
      (.admitted policy (a.scheduled r now clock).1.next, a.paced r now clock) := by
  rw [← a.throttle_scheduled r now clock] at h
  unfold paced
  unfold scheduled at h ⊢
  simp only [pace, h]

/-- A request that is throttled is told when to come again. -/
theorem pace_eq_throttled {reason : ThrottleReason}
    (h : Scheduler.throttleOf (a.load.signal clock r.client.address).1 = some reason) :
    a.pace r policy now clock =
      (.throttled reason
        (.failure r (a.classify r now) (throttleStatus reason).1 (throttleStatus reason).2
          "retry after next_request.not_before" (some (a.scheduled r now clock).1.next)),
        a.paced r now clock) := by
  rw [← a.throttle_scheduled r now clock] at h
  unfold paced
  unfold scheduled at h ⊢
  simp only [pace, h]

/-- A request whose policy is known, and that gives a metro if its policy asks for one. -/
structure Asks (r : Request) (policy : Policy) : Prop where
  known : policyOf r.policy = .ok policy
  metro : ¬ (policy = .metro ∧ r.client.metro.isNone)

theorem Asks.prepare_eq (h : Asks r policy) :
    a.prepare r now clock = a.pace r policy now clock := by
  simp only [prepare, h.known, if_neg h.metro]

/-- What the first stage can do. -/
inductive Prepares (a : Assembler) (r : Request) (now clock : Instant) :
    Preparation × Assembler → Prop
  | refused (title detail : String) (faulty : ∀ policy, ¬ Asks r policy) :
      Prepares a r now clock (.refused (.failure r (a.classify r now) 400 title detail none), a)
  | throttled {policy : Policy} {reason : ThrottleReason} (asks : Asks r policy)
      (load : Scheduler.throttleOf (a.load.signal clock r.client.address).1 = some reason) :
      Prepares a r now clock
        (.throttled reason
          (.failure r (a.classify r now) (throttleStatus reason).1 (throttleStatus reason).2
            "retry after next_request.not_before" (some (a.scheduled r now clock).1.next)),
          a.paced r now clock)
  | admitted {policy : Policy} (asks : Asks r policy)
      (load : Scheduler.throttleOf (a.load.signal clock r.client.address).1 = none) :
      Prepares a r now clock
        (.admitted policy (a.scheduled r now clock).1.next, a.paced r now clock)

/-- A request is refused, throttled or admitted. -/
theorem prepare_cases (a : Assembler) (r : Request) (now clock : Instant) :
    Prepares a r now clock (a.prepare r now clock) := by
  cases hpolicy : policyOf r.policy with
  | error detail =>
    rw [prepare_of_unknown hpolicy]
    exact .refused _ _ fun policy hasks => by rw [hasks.known] at hpolicy; cases hpolicy
  | ok policy =>
    by_cases hmetro : policy = .metro ∧ r.client.metro.isNone
    · rw [prepare_of_missing hpolicy hmetro]
      refine .refused _ _ fun policy' hasks => ?_
      rw [hasks.known] at hpolicy
      cases hpolicy
      exact hasks.metro hmetro
    · have hasks : Asks r policy := ⟨hpolicy, hmetro⟩
      rw [hasks.prepare_eq]
      cases hload : Scheduler.throttleOf (a.load.signal clock r.client.address).1 with
      | none =>
        rw [pace_eq_admitted hload]
        exact .admitted hasks hload
      | some reason =>
        rw [pace_eq_throttled hload]
        exact .throttled hasks hload

end Preparing

/-! ## The ways of a visit

There are four of them. Each says what the answer is and which assembler is left. -/

theorem visit_of_unknown {detail : String} (h : policyOf v.request.policy = .error detail) :
    (a.answer v, a.left v) =
      (.failure v.request (a.classify v.request v.now) 400 "unknown policy" detail none,
        (a.meet v).enter.leave) := by
  have hrun := a.run_assemble v
  rw [prepare_of_unknown h] at hrun
  exact hrun

theorem visit_of_missing (h : policyOf v.request.policy = .ok policy)
    (hmetro : policy = .metro ∧ v.request.client.metro.isNone) :
    (a.answer v, a.left v) =
      (.failure v.request (a.classify v.request v.now) 400 "missing metro"
        "the metro policy requires a metro parameter" none, (a.meet v).enter.leave) := by
  have hrun := a.run_assemble v
  rw [prepare_of_missing h hmetro] at hrun
  exact hrun

theorem visit_of_throttled {reason : ThrottleReason} (h : Asks v.request policy)
    (hload : Scheduler.throttleOf (signalOf v) = some reason) :
    (a.answer v, a.left v) =
      (.failure v.request (a.classify v.request v.now) (throttleStatus reason).1
          (throttleStatus reason).2 "retry after next_request.not_before"
          (some (a.scheduleOf v).1.next),
        (a.pacedOf v).leave) := by
  have hrun := a.run_assemble v
  rw [h.prepare_eq, pace_eq_throttled (a := (a.meet v).enter) hload] at hrun
  exact hrun

theorem visit_of_admitted (h : Asks v.request policy)
    (hload : Scheduler.throttleOf (signalOf v) = none) :
    (a.answer v, a.left v) =
      (((a.pacedOf v).conclude v.request policy (a.scheduleOf v).1.next v.now
          (a.candidatesOf v policy)).1,
        ((a.pacedOf v).conclude v.request policy (a.scheduleOf v).1.next v.now
          (a.candidatesOf v policy)).2.leave) := by
  have hrun := a.run_assemble v
  rw [h.prepare_eq, pace_eq_admitted (a := (a.meet v).enter) hload] at hrun
  exact hrun

/-- What an answer can be. -/
inductive Answer (a : Assembler) (v : Visit) : Response → Prop where
  | refused (title detail : String)
      (faulty : ∀ policy, policyOf v.request.policy = .ok policy →
        policy = .metro ∧ v.request.client.metro.isNone) :
      Answer a v (.failure v.request (a.classify v.request v.now) 400 title detail none)
  | throttled {policy : Policy} {reason : ThrottleReason} (status : ℕ) (title detail : String)
      (known : policyOf v.request.policy = .ok policy)
      (load : Scheduler.throttleOf (signalOf v) = some reason) :
      Answer a v (.failure v.request (a.classify v.request v.now) status title detail
        (some (a.scheduleOf v).1.next))
  | concluded {policy : Policy} (after : LoadMonitor)
      (known : policyOf v.request.policy = .ok policy)
      (metro : ¬ (policy = .metro ∧ v.request.client.metro.isNone))
      (load : Scheduler.throttleOf (signalOf v) = none) :
      Answer a v
        (({ a with load := after, dice := (a.scheduleOf v).2 } : Assembler).conclude v.request
          policy (a.scheduleOf v).1.next v.now (a.candidatesOf v policy)).1

/-- **Every answer is one of these.** -/
theorem answer_cases (a : Assembler) (v : Visit) : Answer a v (a.answer v) := by
  cases hpolicy : policyOf v.request.policy with
  | error detail =>
    rw [(Prod.mk.inj (visit_of_unknown hpolicy)).1]
    exact .refused _ _ fun policy hknown => by rw [hpolicy] at hknown; cases hknown
  | ok policy =>
    by_cases hmetro : policy = .metro ∧ v.request.client.metro.isNone
    · rw [(Prod.mk.inj (visit_of_missing hpolicy hmetro)).1]
      exact .refused _ _ fun policy' hknown => by rw [hpolicy] at hknown; cases hknown; exact hmetro
    · cases hload : Scheduler.throttleOf (signalOf v) with
      | none =>
        rw [(Prod.mk.inj (visit_of_admitted ⟨hpolicy, hmetro⟩ hload)).1]
        exact .concluded _ hpolicy hmetro hload
      | some reason =>
        rw [(Prod.mk.inj (visit_of_throttled ⟨hpolicy, hmetro⟩ hload)).1]
        exact .throttled _ _ _ hpolicy hload

/-! ## What every answer has -/

variable {r : Request} {next : NextRequest} {now : Instant}
  {candidates : Except ReadError (List Entry)}

/-- The answer to candidates that could be read. -/
theorem conclude_ok {candidates : List Entry} :
    (a.conclude r policy next now (.ok candidates)).1 =
      if (a.selector.select policy candidates r.client a.dice).1 = [] then
        .failure r (a.classify r now) 404 "no targets" (noTargets r policy) (some next)
      else
        { status := 200, priority := a.classify r now, next := some next
          targets := (a.selector.select policy candidates r.client a.dice).1.map
            (Target.ofEntry a.services) } := by
  by_cases hempty : (a.selector.select policy candidates r.client a.dice).1 = []
  · simp [conclude, hempty]
  · simp [conclude, hempty]

theorem conclude_told :
    (a.conclude r policy next now candidates).1.priority = a.classify r now ∧
      (a.conclude r policy next now candidates).1.next = some next := by
  cases candidates with
  | error _ => exact ⟨rfl, rfl⟩
  | ok candidates =>
    rw [conclude_ok]
    split
    · exact ⟨rfl, rfl⟩
    · exact ⟨rfl, rfl⟩

/-- An answer is given in the class of its request. -/
theorem priority_answer (a : Assembler) (v : Visit) :
    (a.answer v).priority = a.classify v.request v.now := by
  have hanswer := answer_cases a v
  generalize a.answer v = response at hanswer ⊢
  cases hanswer with
  | refused title detail faulty => rfl
  | throttled status title detail known load => rfl
  | concluded after known metro load => exact conclude_told.1

/-- A client whose request is not faulty is told what the schedule says. -/
theorem next_answer (hpolicy : policyOf v.request.policy = .ok policy)
    (hmetro : policy = .metro → v.request.client.metro.isSome) :
    (a.answer v).next = some (a.scheduleOf v).1.next := by
  have hanswer := answer_cases a v
  generalize a.answer v = response at hanswer ⊢
  cases hanswer with
  | refused title detail faulty =>
    obtain ⟨heq, hnone⟩ := faulty policy hpolicy
    simp [Option.isNone_iff_eq_none.mp hnone] at hmetro
    exact absurd heq hmetro
  | throttled status title detail known load => rfl
  | concluded after known metro load => exact conclude_told.2

/-- Who is told when to come back is told what the schedule says. -/
theorem eq_of_next_answer (h : (a.answer v).next = some next) : next = (a.scheduleOf v).1.next := by
  have hanswer := answer_cases a v
  generalize a.answer v = response at hanswer h
  cases hanswer with
  | refused title detail faulty => cases h
  | throttled status title detail known load => exact (Option.some.inj h).symm
  | concluded after known metro load =>
    rw [conclude_told.2] at h
    exact (Option.some.inj h).symm

/-! ## One visit after another -/

/-- The visits to an assembler with the answers that they get, where each visit finds the assembler
    that the one before it has left. -/
def history (a : Assembler) : List Visit → List (Visit × Response)
  | [] => []
  | v :: rest => (v, a.answer v) :: (a.left v).history rest

/-- Two assemblers that differ at most in what a visit brings along. -/
def SameSettings (a b : Assembler) : Prop :=
  ∀ v : Visit, a.meet v = b.meet v

theorem sameSettings_prepare (a : Assembler) (r : Request) (now clock : Instant) :
    SameSettings (a.prepare r now clock).2 a := by
  intro v
  have hprepare := prepare_cases a r now clock
  generalize a.prepare r now clock = prepared at hprepare ⊢
  cases hprepare with
  | refused title detail faulty => rfl
  | throttled asks load => rfl
  | admitted asks load => rfl

theorem sameSettings_conclude : SameSettings (a.conclude r policy next now candidates).2 a := by
  intro v
  unfold conclude
  cases candidates with
  | error _ => rfl
  | ok candidates =>
    dsimp only
    split
    · rfl
    · rfl

/-- A visit does not change the settings. -/
theorem sameSettings_left (a : Assembler) (v : Visit) : SameSettings (a.left v) a := by
  intro w
  have hprepare := sameSettings_prepare (a.meet v).enter v.request v.now v.clock w
  rw [left, run_assemble]
  split
  · next heq => rw [heq] at hprepare; exact hprepare
  · next heq => rw [heq] at hprepare; exact hprepare
  · next policy next b heq =>
    rw [heq] at hprepare
    exact (sameSettings_conclude w).trans hprepare

/-- An answer depends on the settings of an assembler alone. -/
theorem answer_congr {b : Assembler} (h : SameSettings a b) (v : Visit) :
    a.answer v = b.answer v := by
  unfold answer
  rw [h v]

/-- An answer does not depend on the visits before. -/
theorem history_eq (a : Assembler) (visits : List Visit) :
    a.history visits = visits.map fun v => (v, a.answer v) := by
  induction visits generalizing a with
  | nil => rfl
  | cons v rest ih =>
    rw [history, ih, List.map_cons]
    congr 1
    refine List.map_congr_left fun w _ => ?_
    rw [answer_congr (sameSettings_left a v)]

/-! ## A visit to look at -/

/-- An assembler with the settings that nobody has changed, one key, and waits of no length. -/
def sample : Assembler where
  scheduler := {
    pacing := {}, signer := ⟨Token.octets "secret"⟩, math := ⟨id, id, id, fun _ => 0.0⟩
    base := { scheme := "https", host := some "locate.example.net", path := .segments [""] } }
  selector := { maxResults := 4, math := ⟨id, id, id, fun _ => 0.0⟩ }
  services := []
  apiKeys := ["key"]
  load := .ofLimits {}
  dice := .ofWords #[0]

/-- A request for a service, and nothing else. -/
def sampleVisit (table : RateTable) (moments : List Moment) : Visit where
  request := { service := "ndt", path := "/v2/query/ndt" }
  now := ⟨0⟩
  clock := ⟨0⟩
  load := .ofLimits {}
  dice := .ofWords #[0]
  table
  moments

end Assembler

end Roster
