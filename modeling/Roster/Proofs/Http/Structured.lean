import Roster.Proofs.Http.Routing
import Roster.Proofs.Query.Outcome

/-!
# Which replies are structured

A request for the targets of a service is to be answered with an object, and if something is wrong
with it, with a problem in that object. This holds of everything that is found out about a
request: `wellFormed_answer` says it of the assembler, and a parameter with a bad value is
answered in the same form.

It does not hold of what is found out before there is a request. Parameters are taken as texts, so
that no value of one can be bad before that, but a parameter that is given twice can, and so can a
service whose octets are no text. These are answered in plain text (`structured_iff`).
-/

namespace Roster.Http

open Url (decoded? formPairs)

variable {m : Message} {written service : String}

/-! ## Replies -/

/-- A reply whose body is the object that is promised. Unless the status is that all is well, there
    is a problem in it that says the same as the status, and what it is about. -/
def Structured (path : String) (reply : Reply) : Prop :=
  ∃ problem next targets, reply.contentType = some "application/json" ∧
    reply.body = .json (answerJson problem next targets) ∧
    (reply.status ≠ 200 → ∃ p, problem = some p ∧ p.status = reply.status ∧ p.path = path)

theorem structured_invalidParameter (path detail : String) :
    Structured path (invalidParameter path detail) :=
  ⟨_, _, _, rfl, rfl, fun _ => ⟨_, rfl, rfl, rfl⟩⟩

/-- What the assembler answers is structured. -/
theorem structured_replyOf {r : Request} {response : Response}
    (h : Assembler.WellFormed r response) :
    Structured r.path (replyOf response) := by
  refine ⟨response.problem, response.next, response.targets, rfl, rfl, fun hstatus => ?_⟩
  obtain ⟨problem, hproblem⟩ := Option.ne_none_iff_exists'.mp (mt h.problem.mp hstatus)
  exact ⟨problem, hproblem, h.told problem hproblem⟩

/-- Plain text is not structured. -/
theorem not_structured_plain (path : String) (status : ℕ) (content : String) :
    ¬ Structured path (.plain status content) := by
  rintro ⟨_, _, _, -, hbody, -⟩
  cases hbody

section Replying

variable (a : Assembler) (m : Message) (now clock : Instant) (table : RateTable)
  (moments : List Moment)

/-- The reply to a message, and the assembler that is left. -/
def replyTo : Reply × Assembler :=
  ((answer RateTable.amid a m now clock).run (table, moments)).run.1

variable {a m now clock table moments}

/-- The visit that a request pays. -/
def visitOf (a : Assembler) (r : Request) (now clock : Instant) (table : RateTable)
    (moments : List Moment) :
    Visit :=
  { request := r, now, clock, load := a.load, dice := a.dice, table, moments }

theorem replyTo_of_reply {reply : Reply} (hmethod : m.method = "GET") (h : route m = .reply reply) :
    replyTo a m now clock table moments = (reply, a) := by
  have hreply : replyTo a m now clock table moments = (reply.toMethod m.method, a) := by
    rw [replyTo, answer, h]
    rfl
  rw [hreply, hmethod]
  rfl

theorem replyTo_of_query {r : Request} (hmethod : m.method = "GET") (h : route m = .query r) :
    (replyTo a m now clock table moments).1 =
      replyOf (a.answer (visitOf a r now clock table moments)) := by
  have hreply : (replyTo a m now clock table moments).1 =
      (replyOf (a.answer (visitOf a r now clock table moments))).toMethod m.method := by
    rw [replyTo, answer, h]
    rfl
  rw [hreply, hmethod]
  rfl

end Replying

/-- **A reply is structured exactly if the service can be read and no known parameter is given
    twice.** What is not structured is plain text, and nothing has been done for it. -/
theorem structured_iff (a : Assembler) (now clock : Instant) (table : RateTable)
    (moments : List Moment) (hmethod : m.method = "GET")
    (hpath : m.target.path = "/v2/query/" ++ written) (hne : written ≠ "")
    (hslash : '/' ∉ written.toList) :
    (Structured m.target.path (replyTo a m now clock table moments).1 ↔
        (decoded? written.toList).isSome ∧
        (known (formPairs (m.target.query.getD "").toList)).Nodup) ∧
      (¬ Structured m.target.path (replyTo a m now clock table moments).1 →
        ∃ content, replyTo a m now clock table moments = (.plain 400 content, a)) := by
  have hroute := route_written hmethod hpath hne hslash
  cases hservice : decoded? written.toList with
  | none =>
    rw [routeQuery_of_undecoded hservice] at hroute
    rw [replyTo_of_reply hmethod hroute]
    exact ⟨iff_of_false (not_structured_plain _ _ _) (fun h => nomatch h.1), fun _ => ⟨_, rfl⟩⟩
  | some service =>
    cases hrepeated : repeated? [] (formPairs (m.target.query.getD "").toList) with
    | some name =>
      have hnodup : ¬ (known (formPairs (m.target.query.getD "").toList)).Nodup := by
        intro hnodup
        rw [repeated?_eq_none_iff.mpr ⟨hnodup, fun _ _ => List.not_mem_nil⟩] at hrepeated
        cases hrepeated
      rw [routeQuery_of_repeated hservice hrepeated] at hroute
      rw [replyTo_of_reply hmethod hroute]
      exact ⟨iff_of_false (not_structured_plain _ _ _) (fun h => hnodup h.2), fun _ => ⟨_, rfl⟩⟩
    | none =>
      have hstructured : Structured m.target.path (replyTo a m now clock table moments).1 := by
        rw [routeQuery_of_readable hservice hrepeated] at hroute
        obtain ⟨detail, hquery⟩ | ⟨r, hquery, hrequest⟩ :=
          queryOf_cases m service (formPairs (m.target.query.getD "").toList)
        · rw [replyTo_of_reply hmethod (hroute.trans hquery)]
          exact structured_invalidParameter _ _
        · rw [replyTo_of_query hmethod (hroute.trans hquery), ← hrequest]
          exact structured_replyOf (a.wellFormed_answer (visitOf a r now clock table moments))
      refine ⟨iff_of_true hstructured ⟨rfl, (repeated?_eq_none_iff.mp hrepeated).1⟩, ?_⟩
      exact fun h => absurd hstructured h

/-! ## A message to look at -/

/-- A request for a service whose name is written in these letters. -/
def sampleMessage (written : String) (query : Option String) : Message where
  method := "GET"
  target := { path := "/v2/query/" ++ written, query }

theorem structured_iff_sample :
    Structured "/v2/query/n%20dt"
      (replyTo .sample (sampleMessage "n%20dt" (some "lat=x&lon=0&x=1&x=2"))
        ⟨0⟩ ⟨0⟩ (.blank .zero) []).1 ∧
      ¬ Structured "/v2/query/%FF"
        (replyTo .sample (sampleMessage "%FF" none) ⟨0⟩ ⟨0⟩ (.blank .zero) []).1 := by
  constructor
  · refine (structured_iff .sample ⟨0⟩ ⟨0⟩ (.blank .zero) [] rfl rfl (by decide) (by decide)).1.mpr
      ⟨?_, ?_⟩
    · decide +kernel
    · decide +kernel
  · refine mt
      (structured_iff .sample ⟨0⟩ ⟨0⟩ (.blank .zero) [] rfl rfl (by decide) (by decide)).1.mp ?_
    exact fun h => absurd h.1 (by decide +kernel)

/-- A policy that is given twice. -/
theorem repeated_parameter_unstructured :
    let m := sampleMessage "ndt_ssl" (some "policy=all&policy=geo")
    m.method = "GET" ∧ serviceOf? m.target.path = some "ndt_ssl" ∧
      (replyTo .sample m ⟨0⟩ ⟨0⟩ (.blank .zero) []).1.status = 400 ∧
      ¬ Structured m.target.path (replyTo .sample m ⟨0⟩ ⟨0⟩ (.blank .zero) []).1 := by
  intro m
  have hservice : decoded? "ndt_ssl".toList = some "ndt_ssl" := by decide +kernel
  have hrepeated : repeated? [] (formPairs (m.target.query.getD "").toList) = some "policy" := by
    decide +kernel
  have hroute : route m = _ :=
    (route_written rfl rfl (by decide) (by decide)).trans
      (routeQuery_of_repeated hservice hrepeated)
  rw [replyTo_of_reply rfl hroute]
  exact ⟨rfl, by decide +kernel, rfl, not_structured_plain _ _ _⟩

end Roster.Http
