import Roster.Proofs.Query.FollowUp
import Roster.Proofs.Query.Verification
import Roster.Proofs.Query.Window
import Roster.Proofs.Url.Query

/-!
# What the next address carries

A client with an API key finds it in the query of the next address, with a token for it. The query
is only a text, and the key is whatever the client once sent, so what has to hold is that the pairs
which are read from the text are those of the base address with the key and the token after them,
whatever characters they have. That the token is of use then follows from the instants which the
client is told beside the address: these are the ones that it was made for, and the calendar has
them both (`inCalendar_schedule`).

Nothing is asked of the base address but that it was read from a text. It may have a query and a
fragment, and need not be the address of a web server.
-/

namespace Roster

namespace Signer

open Token

variable {s : Signer} {key : String} {start stop : Instant}

/-- A token at both ends of a window that is at least a millisecond long. -/
theorem verify_mint_at_ends (hstart : start.InCalendar) (hstop : stop.InCalendar)
    (hwindow : start.floorMillis < stop.floorMillis) :
    s.verify (s.mint key start stop) key start = .ok .valid ∧
      s.verify (s.mint key start stop) key stop = .ok .expired := by
  rw [← Instant.millis_eq_floorMillis, ← Instant.millis_eq_floorMillis] at hwindow
  have hjudged (now : Instant) : s.verify (s.mint key start stop) key now =
      .ok (Claims.statusAt ⟨keyDigest key, start.millis, stop.millis⟩ now) :=
    (verify_mint_eq hstart.isMillis hstop.isMillis).trans (if_neg (not_not_intro rfl))
  rw [hjudged, hjudged]
  constructor
  · rw [Claims.statusAt_eq_valid_iff.mpr ⟨le_rfl, hwindow⟩]
  · rw [Claims.statusAt_eq_expired_iff.mpr ⟨hwindow.le.not_gt, le_rfl⟩]

end Signer

namespace Scheduler

variable {s : Scheduler} {now : Instant}

theorem inCalendar_schedule (hnow : now.InCalendar) (c : Priority) (load : LoadSignal)
    (service : String) (apiKey : Option String) (d : Dice) :
    (s.schedule c now load service apiKey d).1.next.notBefore.InCalendar ∧
      (s.schedule c now load service apiKey d).1.next.expires.InCalendar := by
  rw [notBefore_schedule, expires_schedule]
  exact ⟨hnow.saturatingAdd _, (hnow.saturatingAdd _).saturatingAdd _⟩

/-! ## The query of the next address -/

theorem delimited_nextUrl (h : s.base.Delimited) (service : String) (apiKey : Option String)
    (notBefore expires : Instant) : (s.nextUrl service apiKey notBefore expires).Delimited := by
  have hextended := h.extend ["v2", "query", service]
  unfold nextUrl
  cases apiKey with
  | none => exact hextended
  | some key => exact (hextended.addPair _ _).addPair _ _

theorem query_nextUrl_none (s : Scheduler) (service : String) (notBefore expires : Instant) :
    (s.nextUrl service none notBefore expires).query = s.base.query :=
  s.base.query_extend _

/-- The address of a further request has the pairs of the base, then the key and its token. -/
theorem pairs_nextUrl_some (s : Scheduler) (service key : String) (notBefore expires : Instant) :
    (s.nextUrl service (some key) notBefore expires).pairs =
      s.base.pairs ++ [("key", key), ("access_token", s.signer.mint key notBefore expires)] := by
  have hextended : (s.base.extend ["v2", "query", service]).pairs = s.base.pairs := by
    rw [Url.pairs, Url.query_extend, Url.pairs]
  change (((s.base.extend ["v2", "query", service]).addPair "key" key).addPair
    "access_token" _).pairs = _
  rw [Url.pairs_addPair, Url.pairs_addPair, hextended, List.append_assoc]
  rfl

/-- **A client with a key is told an address with a token that is of use**, and a client without one
    is told no more than the base address says. -/
theorem next_carries_token {text : String} (read : Url.parse text = .ok s.base)
    (hnow : now.InCalendar) (c : Priority) (load : LoadSignal) (service : String) (d : Dice) :
    (∀ key,
      let next := (s.schedule c now load service (some key) d).1.next
      let token := s.signer.mint key next.notBefore next.expires
      (∃ query, Url.queryIn next.url = some query ∧
        Url.formPairs query.toList = s.base.pairs ++ [("key", key), ("access_token", token)]) ∧
      (next.notBefore.floorMillis < next.expires.floorMillis →
        s.signer.verify token key next.notBefore = .ok .valid ∧
          s.signer.verify token key next.expires = .ok .expired)) ∧
    Url.queryIn (s.schedule c now load service none d).1.next.url = s.base.query := by
  have hbase : s.base.Delimited := Url.delimited_of_parse read
  constructor
  · intro key next token
    obtain ⟨hnotBefore, hexpires⟩ := inCalendar_schedule (s := s) hnow c load service (some key) d
    have hdelimited := delimited_nextUrl hbase service (some key) next.notBefore next.expires
    refine ⟨?_, Signer.verify_mint_at_ends hnotBefore hexpires⟩
    obtain ⟨query, hquery⟩ : ∃ query,
      (s.nextUrl service (some key) next.notBefore next.expires).query = some query :=
      ⟨_, rfl⟩
    have hpairs := pairs_nextUrl_some s service key next.notBefore next.expires
    rw [Url.pairs, hquery] at hpairs
    exact ⟨query, hdelimited.queryIn_render.trans hquery, hpairs⟩
  · exact (delimited_nextUrl hbase service none _ _).queryIn_render.trans
      (query_nextUrl_none s service _ _)

/-- A scheduler below an address with a query and a fragment. -/
def sampleQueried : Scheduler :=
  { sampleScheduler with base :=
    { sampleConfig.baseUrl with query := some "site=a+b&", fragment := some "top" } }

/-- A key with all the signs that mean something in a query, and characters beyond ASCII. -/
def sampleKey : String :=
  "a b&c=d+%2F/#?é€😀"

/-- A further request that a client with a key is given. -/
def sampleNext : NextRequest :=
  (sampleQueried.schedule .global ⟨1700000000 * nanosPerSecond⟩ ⟨1.0, false, false⟩ "ndt"
    (some sampleKey)
    (.ofWords #[0x8000000000000000])).1.next

theorem next_carries_token_sample :
    Url.parse "https://locate.example.net/api/?site=a+b&#top" = .ok sampleQueried.base ∧
    (∃ query, Url.queryIn sampleNext.url = some query ∧ Url.formPairs query.toList =
      [("site", "a b"), ("key", sampleKey),
        ("access_token",
          sampleQueried.signer.mint sampleKey sampleNext.notBefore sampleNext.expires)]) ∧
    sampleQueried.signer.verify
      (sampleQueried.signer.mint sampleKey sampleNext.notBefore sampleNext.expires)
      sampleKey sampleNext.expires = .ok .expired := by
  have read : Url.parse "https://locate.example.net/api/?site=a+b&#top" =
      .ok sampleQueried.base := by decide +kernel
  have hnow : (⟨1700000000 * nanosPerSecond⟩ : Instant).InCalendar := by decide
  obtain ⟨hquery, hverified⟩ := (next_carries_token read hnow .global ⟨1.0, false, false⟩ "ndt"
    (.ofWords #[0x8000000000000000])).1 sampleKey
  have hwindow : sampleNext.notBefore.floorMillis < sampleNext.expires.floorMillis := by
    rw [← Instant.millis_eq_floorMillis, ← Instant.millis_eq_floorMillis]
    decide +kernel
  have hpairs : sampleQueried.base.pairs = [("site", "a b")] := by decide +kernel
  rw [hpairs] at hquery
  exact ⟨read, hquery, (hverified hwindow).2⟩

end Scheduler

end Roster
