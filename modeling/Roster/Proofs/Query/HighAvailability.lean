import Roster.Proofs.Query.Token
import Roster.Proofs.Query.Visit

/-!
# Who gets high availability

Only a client that has been here before, and that comes when it was told to
(`highAvailability_of_history`). A request is in that class if its token is accepted for its key. If
nobody can sign but the assembler (`Unforged`), that token is one that an earlier answer has handed
out in its address, and what its claims say is what that answer said about the time to come back.

The other half is that a client without a key is handed no token. Its answer is the same whatever
signs the tokens (`answer_withSigner`).
-/

namespace Roster

namespace Assembler

open Token

variable {a : Assembler} {v : Visit} {r : Request} {now clock : Instant} {key token : String}
  {next : NextRequest} {policy : Policy} {visits : List Visit}

/-! ## Keys and classes -/

theorem acceptedKey_eq_some_iff {presented : Option String} :
    a.acceptedKey presented = some key ↔
      presented = some key ∧ key ≠ "" ∧ (a.apiKeys = [] ∨ key ∈ a.apiKeys) := by
  rw [acceptedKey, Option.filter_eq_some_iff]
  simp

theorem classify_of_keyless (h : a.acceptedKey r.apiKey = none) : a.classify r now = .global := by
  simp [classify, h, Priority.classify]

/-- The class is the high one if and only if an accepted key comes with a token for it. -/
theorem classify_eq_highAvailability_iff : a.classify r now = .highAvailability ↔
    ∃ key token, a.acceptedKey r.apiKey = some key ∧ r.accessToken = some token ∧ token ≠ "" ∧
      a.scheduler.signer.accepts token key now := by
  unfold classify
  cases hkey : a.acceptedKey r.apiKey with
  | none => simp [Priority.classify]
  | some key =>
    cases htoken : r.accessToken with
    | none => simp [Priority.classify]
    | some token =>
      by_cases hempty : token = ""
      · simp [hempty, Priority.classify]
      · have hfilter : (some token).filter (fun t => decide (t ≠ "")) = some token := by
          simp [hempty]
        rw [hfilter]
        simp [hempty, Priority.classify]

/-! ## Handing out tokens -/

/-- The token that a visit is handed out, if it is. -/
def minted (a : Assembler) (v : Visit) (response : Response) : Option String :=
  (a.acceptedKey v.request.apiKey).bind fun key =>
    response.next.map fun next => a.scheduler.signer.mint key next.notBefore next.expires

/-- The address at which the service of a visit is asked for. -/
def serviceUrl (a : Assembler) (v : Visit) : Url :=
  a.scheduler.base.extend ["v2", "query", v.request.service]

/-- The address of an answer has the token in it that is handed out, next to the key, and nothing is
    added to it where none is. -/
theorem url_of_next_answer (h : (a.answer v).next = some next) :
    next.url = match a.acceptedKey v.request.apiKey with
      | none => (a.serviceUrl v).render
      | some key => (((a.serviceUrl v).addPair "key" key).addPair "access_token"
          (a.scheduler.signer.mint key next.notBefore next.expires)).render := by
  obtain rfl := eq_of_next_answer h
  change (a.scheduler.nextUrl v.request.service (a.acceptedKey v.request.apiKey) _ _).render = _
  cases a.acceptedKey v.request.apiKey with
  | none => rfl
  | some key => rfl

/-! ## Without a key -/

/-- The assembler with another secret. -/
def withSigner (a : Assembler) (signer : Signer) : Assembler :=
  { a with scheduler := { a.scheduler with signer } }

section Keyless

variable (signer : Signer) (h : a.acceptedKey r.apiKey = none)
include h

theorem pace_withSigner : (a.withSigner signer).pace r policy now clock =
    ((a.pace r policy now clock).1, (a.pace r policy now clock).2.withSigner signer) := by
  have hkey : (a.withSigner signer).acceptedKey r.apiKey = none := h
  -- A schedule without a key has an address without a token.
  have hschedule (load : LoadSignal) :
      (a.withSigner signer).scheduler.schedule .global now load r.service none =
        a.scheduler.schedule .global now load r.service none := rfl
  simp only [pace, classify_of_keyless h, classify_of_keyless hkey, h, hkey, hschedule]
  simp only [withSigner]
  split
  · rfl
  · rfl

theorem prepare_withSigner : (a.withSigner signer).prepare r now clock =
    ((a.prepare r now clock).1, (a.prepare r now clock).2.withSigner signer) := by
  have hkey : (a.withSigner signer).acceptedKey r.apiKey = none := h
  simp only [prepare, classify_of_keyless h, classify_of_keyless hkey, pace_withSigner signer h]
  split
  · rfl
  · split
    · rfl
    · rfl

theorem conclude_withSigner {candidates : Except ReadError (List Entry)} :
    ((a.withSigner signer).conclude r policy next now candidates).1 =
      (a.conclude r policy next now candidates).1 := by
  have hclass : (a.withSigner signer).classify r now = a.classify r now := by
    rw [classify_of_keyless h, classify_of_keyless (a := a.withSigner signer) h]
  cases candidates with
  | error _ =>
    unfold conclude
    rw [hclass]
  | ok candidates =>
    rw [conclude_ok, conclude_ok, hclass]
    rfl

end Keyless

/-- **A client without an accepted key gets an answer in which nothing is signed**: it would be the
    same with any other secret. -/
theorem answer_withSigner (signer : Signer) (h : a.acceptedKey v.request.apiKey = none) :
    (a.withSigner signer).answer v = a.answer v := by
  have hprepare : ((a.withSigner signer).meet v).enter.prepare v.request v.now v.clock = _ :=
    prepare_withSigner (a := (a.meet v).enter) signer h
  have hkept := sameSettings_prepare (a.meet v).enter v.request v.now v.clock v
  rw [answer_eq, answer_eq, hprepare]
  generalize (a.meet v).enter.prepare v.request v.now v.clock = prepared at hkept
  obtain ⟨preparation, b⟩ := prepared
  cases preparation with
  | refused response => rfl
  | throttled reason response => rfl
  | admitted policy next =>
    have hkeys : b.apiKeys = a.apiKeys := (congrArg apiKeys hkept :)
    refine conclude_withSigner signer ?_
    rw [← h, acceptedKey, acceptedKey, hkeys]

/-! ## Runs -/

/-- A visit presents nothing that somebody else has signed: if the tag of its token belongs to the
    payload, the two are those of a token that has been handed out before. -/
def Authentic (a : Assembler) (before : List (Visit × Response)) (v : Visit) : Prop :=
  ∀ token payload, v.request.accessToken = some token →
    Signer.split? token = some (payload, Hmac.tag a.scheduler.signer.secret payload) →
    ∃ u earlier old, (u, earlier) ∈ before ∧ a.minted u earlier = some old ∧
      Signer.split? old = some (payload, Hmac.tag a.scheduler.signer.secret payload)

/-- Nobody can sign but the assembler. -/
def Unforged (a : Assembler) (history : List (Visit × Response)) : Prop :=
  ∀ before v response after, history = before ++ (v, response) :: after → a.Authentic before v

variable {history : List (Visit × Response)} {response : Response}

theorem unforged_nil : a.Unforged [] := by
  intro before v response after h
  cases before with
  | nil => cases h
  | cons _ _ => cases h

theorem unforged_concat (h : a.Unforged history) (hv : a.Authentic history v) :
    a.Unforged (history ++ [(v, response)]) := by
  intro before w answer after heq
  obtain rfl | ⟨after, last, rfl⟩ := List.eq_nil_or_concat after
  · obtain ⟨rfl, hlast⟩ := List.append_inj' heq rfl
    cases hlast
    exact hv
  · have heq' : history ++ [(v, response)] = (before ++ (w, answer) :: after) ++ [last] := by
      simpa using heq
    exact h before w answer after (List.append_inj' heq' rfl).1

/-- The history says what the visits were answered. -/
theorem answer_of_mem_history (h : (v, response) ∈ a.history visits) :
    a.answer v = response := by
  rw [history_eq, List.mem_map] at h
  obtain ⟨w, -, hw⟩ := h
  cases hw
  rfl

/-- An answer in which a token was handed out that serves every key of a digest at a time. -/
def Invites (a : Assembler) (u : Visit) (earlier : Response) (key token : String) (now : Instant) :
    Prop :=
  ∃ key' next, a.acceptedKey u.request.apiKey = some key' ∧ earlier.next = some next ∧
    next.url = (((a.serviceUrl u).addPair "key" key').addPair "access_token" token).render ∧
    (Sha256.digest (octets key')).take 12 = (Sha256.digest (octets key)).take 12 ∧
    next.notBefore.millis ≤ now.millis ∧ now.millis < next.expires.millis

/-- A token that an answer has minted is an invitation. -/
theorem invites_of_minted {u : Visit} (hminted : a.minted u (a.answer u) = some token)
    (haccepts : a.scheduler.signer.accepts token key now) :
    a.Invites u (a.answer u) key token now := by
  simp only [minted, Option.bind_eq_some_iff, Option.map_eq_some_iff] at hminted
  obtain ⟨key', hkey', next, hnext, rfl⟩ := hminted
  obtain ⟨-, hdigest, hstart, hstop⟩ := Signer.accepts_mint_iff.mp haccepts
  have hurl := url_of_next_answer hnext
  rw [hkey'] at hurl
  exact ⟨key', next, hkey', hnext, hurl, keyDigest_eq_iff.mp hdigest, hstart, hstop⟩

/-- **High availability is only for those who have been told to come.** If nobody else can sign, a
    request in that class has an accepted key, and there is an earlier answer to a key of the same
    digest, in whose address the token stands and in whose window the request comes. And a client
    without an accepted key is handed nothing that is signed. -/
theorem highAvailability_of_history (unforged : a.Unforged (a.history visits)) :
    (∀ before v response after, a.history visits = before ++ (v, response) :: after →
      response.priority = .highAvailability →
      ∃ key token, v.request.apiKey = some key ∧ key ≠ "" ∧ (a.apiKeys = [] ∨ key ∈ a.apiKeys) ∧
        v.request.accessToken = some token ∧
        ∃ u earlier, (u, earlier) ∈ before ∧ a.Invites u earlier key token v.now) ∧
    (∀ v response, (v, response) ∈ a.history visits → a.acceptedKey v.request.apiKey = none →
      a.minted v response = none ∧
        (∀ next, response.next = some next → next.url = (a.serviceUrl v).render) ∧
        ∀ signer, (a.withSigner signer).answer v = response) := by
  constructor
  · intro before v response after hhistory hpriority
    have hanswer {u : Visit} {earlier : Response} (h : (u, earlier) ∈ before ++ [(v, response)]) :
        a.answer u = earlier := by
      have hmem : (u, earlier) ∈ a.history visits := by
        rw [hhistory, List.append_cons]
        exact List.mem_append_left _ h
      exact answer_of_mem_history hmem
    obtain rfl : a.answer v = response := hanswer (by simp)
    rw [priority_answer] at hpriority
    obtain ⟨key, token, hkey, htoken, -, haccepts⟩ := classify_eq_highAvailability_iff.mp hpriority
    obtain ⟨hpresented, hne, hregistered⟩ := acceptedKey_eq_some_iff.mp hkey
    obtain ⟨payload, hsplit⟩ := Signer.exists_signed_of_accepts haccepts
    obtain ⟨u, earlier, old, hmem, hold, hsplit'⟩ :=
      unforged before v _ after hhistory token payload htoken hsplit
    -- A text is determined by its payload and its tag.
    obtain rfl : token = old :=
      (Signer.split?_eq_some_iff.mp hsplit).trans (Signer.split?_eq_some_iff.mp hsplit').symm
    obtain rfl : a.answer u = earlier := hanswer (by simp [hmem])
    exact ⟨key, token, hpresented, hne, hregistered, htoken, u, _, hmem,
      invites_of_minted hold haccepts⟩
  · intro v response hmem hkeyless
    obtain rfl := answer_of_mem_history hmem
    refine ⟨by simp [minted, hkeyless], fun next hnext => ?_, fun signer => ?_⟩
    · have hurl := url_of_next_answer hnext
      rwa [hkeyless] at hurl
    · exact answer_withSigner signer hkeyless

/-! ## A client that comes back -/

/-- A client with a key, at a time. -/
def keyedVisit (token : Option String) (now : Instant) : Visit :=
  { sampleVisit (.blank .zero) [] with
    request :=
      { service := "ndt", path := "/v2/query/ndt", apiKey := some "key", accessToken := token }
    now }

/-- The token that is handed out to a client with a key at the time zero. -/
def keyedToken : String :=
  sample.scheduler.signer.mint "key" ⟨0⟩ ⟨600000000000⟩

theorem minted_keyedVisit :
    sample.minted (keyedVisit none ⟨0⟩) (sample.answer (keyedVisit none ⟨0⟩)) =
      some keyedToken := by
  have hnext : (sample.answer (keyedVisit none ⟨0⟩)).next =
      some (sample.scheduleOf (keyedVisit none ⟨0⟩)).1.next :=
    next_answer (rfl : policyOf none = .ok .geoOptions) nofun
  have hkey : sample.acceptedKey (keyedVisit none ⟨0⟩).request.apiKey = some "key" := by decide
  have hwindow : (sample.scheduleOf (keyedVisit none ⟨0⟩)).1.next.notBefore = ⟨0⟩ ∧
      (sample.scheduleOf (keyedVisit none ⟨0⟩)).1.next.expires = ⟨600000000000⟩ := by
    decide +kernel
  rw [minted, hkey, hnext, Option.bind_some, Option.map_some, hwindow.1, hwindow.2]
  rfl

/-- The client comes five minutes after it was told to. -/
theorem invites_keyedVisit :
    sample.Unforged
      (sample.history [keyedVisit none ⟨0⟩, keyedVisit (some keyedToken) ⟨300000000000⟩]) ∧
      (sample.answer (keyedVisit (some keyedToken) ⟨300000000000⟩)).priority = .highAvailability ∧
      sample.Invites (keyedVisit none ⟨0⟩) (sample.answer (keyedVisit none ⟨0⟩)) "key" keyedToken
        ⟨300000000000⟩ := by
  have unforged : sample.Unforged
      (sample.history [keyedVisit none ⟨0⟩, keyedVisit (some keyedToken) ⟨300000000000⟩]) := by
    rw [history_eq]
    refine unforged_concat (unforged_concat unforged_nil fun token payload htoken => by
      cases htoken) ?_
    intro token payload htoken hsplit
    obtain rfl : keyedToken = token := Option.some.inj htoken
    exact ⟨_, _, keyedToken, List.mem_singleton_self _, minted_keyedVisit, hsplit⟩
  have hpriority : (sample.answer (keyedVisit (some keyedToken) ⟨300000000000⟩)).priority =
      .highAvailability := by
    rw [priority_answer, classify_eq_highAvailability_iff]
    exact ⟨"key", keyedToken, by decide, rfl, Signer.mint_ne_empty _ _ _ _,
      Signer.accepts_mint_iff.mpr ⟨by decide, rfl, by decide, by decide⟩⟩
  obtain ⟨key, token, hkey, -, -, htoken, u, earlier, hmem, hinvites⟩ :=
    (highAvailability_of_history unforged).1 [(keyedVisit none ⟨0⟩, _)] _ _ []
      (history_eq sample _) hpriority
  obtain rfl : "key" = key := Option.some.inj hkey
  obtain rfl : keyedToken = token := Option.some.inj htoken
  obtain ⟨rfl, rfl⟩ := Prod.mk.inj (List.mem_singleton.mp hmem)
  exact ⟨unforged, hpriority, hinvites⟩

end Assembler

end Roster
