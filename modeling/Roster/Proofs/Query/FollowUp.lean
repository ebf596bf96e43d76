import Roster.Config.Query
import Roster.Proofs.Http.Routing
import Roster.Proofs.Url.Parser
import Roster.Query.Schedule

/-!
# Where the next request leads

A client is told an address at which to ask for the same service again. The address goes to the
client as a text and comes back as the path of a request, so what has to hold is that the path in
the text is that of the base address with the two segments of the query interface and one more after
it, that this one is read as the service, and that the router takes it for the service
(`Url.LeadsBack`).

It does hold for all that a segment can be made of, whether it has slashes, percent signs, blanks or
characters of any script in it, but not for every service. A tab or a line break is not encoded but
dropped, and a service of one or two points is left out, although clients may ask for such services;
the next address then leads to another service or to none. A base address whose path is two slashes
loses one of them. `follows_up_iff` says that nothing else is lost.
-/

namespace Roster

namespace Url

/-- The path in the text of an address leads back to a service, below the given segments: what
    follows them is the path of the query interface with a segment that is read as the service, and
    of a request for that path the service is what the router finds. -/
def LeadsBack (text : String) (below : List String) (service : String) : Prop :=
  ∃ written : String, segmentsIn text = below ++ ["v2", "query", written] ∧
    decoded? written.toList = some service ∧
    ∀ m : Http.Message, m.method = "GET" → m.target.path = "/v2/query/" ++ written →
      Http.repeated? [] (formPairs (m.target.query.getD "").toList) = none →
      Http.route m = Http.queryOf m service (formPairs (m.target.query.getD "").toList)

variable {special : Bool} {below front : List String} {service written : String}

/-! ## The segment of a service -/

/-- A segment that is not empty and has no slash in it is routed as the service
    that it is read as. -/
theorem route_of_decoded? {m : Http.Message} (hne : written.toList ≠ [])
    (hslash : '/' ∉ written.toList) (hdecoded : decoded? written.toList = some service)
    (hmethod : m.method = "GET") (hpath : m.target.path = "/v2/query/" ++ written)
    (honce : Http.repeated? [] (formPairs (m.target.query.getD "").toList) = none) :
    Http.route m = Http.queryOf m service (formPairs (m.target.query.getD "").toList) := by
  have hroute := Http.route_written hmethod hpath (mt String.toList_eq_nil_iff.mpr hne) hslash
  exact hroute.trans (Http.routeQuery_of_readable hdecoded honce)

/-- A service is read back from the segment that it is written as exactly if none of its
    characters is dropped. -/
theorem decoded?_writtenSegment_iff :
    decoded? (writtenSegment special service) = some service ↔
      ∀ c ∈ service.toList, isDropped c = false := by
  rw [decoded?_writtenSegment, Option.some.injEq, ← String.toList_inj, String.toList_ofList,
    List.filter_eq_self]
  simp only [Bool.not_eq_true']

/-- A service is added as a segment of its own that is read as the service, unless it is one or two
    points or has a character in it that is dropped. -/
theorem addSegment_service_iff (hfront : front ≠ [""]) (hservice : service ≠ "") :
    (∃ written : String, addSegment special front service = front ++ [written] ∧
        decoded? written.toList = some service) ↔
      service ≠ "." ∧ service ≠ ".." ∧ ∀ c ∈ service.toList, isDropped c = false := by
  rw [addSegment_eq]
  constructor
  · rintro ⟨written, hadd, hdecoded⟩
    -- an empty segment is read as no service
    have hempty : written ≠ "" := by
      rintro rfl
      exact hservice (Option.some.inj hdecoded).symm
    split at hadd
    · simp at hadd
    · next hpoints =>
      rw [not_or] at hpoints
      split at hadd
      · rw [append_of_ne hfront] at hadd
        exact absurd (List.singleton_inj.mp (List.append_inj' hadd rfl).2).symm hempty
      · split at hadd
        · exact absurd (List.singleton_inj.mp (List.append_inj' hadd rfl).2).symm hempty
        · rw [append_of_ne hfront] at hadd
          have hwritten := List.singleton_inj.mp (List.append_inj' hadd rfl).2
          rw [← hwritten, String.toList_ofList, decoded?_writtenSegment_iff] at hdecoded
          exact ⟨hpoints.1, hpoints.2, hdecoded⟩
  · rintro ⟨hpoint, hpoints, hkept⟩
    have hdecoded : decoded? (String.ofList (writtenSegment special service)).toList =
        some service := by
      rw [String.toList_ofList]
      exact decoded?_writtenSegment_iff.mpr hkept
    -- what is written as points is read as points
    have hne {points : String} (hread : decoded? points.toList = some points)
        (h : service ≠ points) :
        String.ofList (writtenSegment special service) ≠ points := by
      rintro hwritten
      rw [hwritten, hread] at hdecoded
      exact h (Option.some.inj hdecoded).symm
    refine ⟨.ofList (writtenSegment special service), ?_, hdecoded⟩
    rw [if_neg (not_or.mpr ⟨hpoint, hpoints⟩), if_neg (hne (by decide) hpoint),
      if_neg (hne (by decide) hpoints), append_of_ne hfront]

/-! ## The segments before it -/

theorem addSegment_v2 (parts : List String) :
    addSegment special parts "v2" = append parts "v2" := by
  have hwritten : String.ofList (writtenSegment special "v2") = "v2" := by cases special <;> decide
  rw [addSegment_eq, hwritten, if_neg (by decide), if_neg (by decide), if_neg (by decide)]

theorem addSegment_query (parts : List String) :
    addSegment special parts "query" = append parts "query" := by
  have hwritten : String.ofList (writtenSegment special "query") = "query" := by
    cases special <;> decide
  rw [addSegment_eq, hwritten, if_neg (by decide), if_neg (by decide), if_neg (by decide)]

/-- What stands before the segment of a service. -/
def serviceFront (below : List String) : List String :=
  (if below = ["", ""] then [] else withoutEmptyEnd below) ++ ["v2", "query"]

theorem concat_ne {segment : String} (h : segment ≠ "") (parts : List String) :
    parts ++ [segment] ≠ [""] := by
  intro heq
  have hlast := congrArg List.getLast? heq
  rw [List.getLast?_concat, List.getLast?_singleton, Option.some.injEq] at hlast
  exact h hlast

theorem serviceFront_ne : serviceFront below ≠ [""] := by
  rw [serviceFront, List.append_cons]
  exact concat_ne (by decide) _

theorem foldl_addSegment_service (below : List String) (service : String) :
    ["v2", "query", service].foldl (addSegment special) (stem below) =
      addSegment special (serviceFront below) service := by
  have hfirst : append (stem below) "v2" =
      (if below = ["", ""] then [] else withoutEmptyEnd below) ++ ["v2"] := by
    rw [append_stem]
    split <;> rfl
  rw [List.foldl_cons, List.foldl_cons, List.foldl_cons, List.foldl_nil, addSegment_v2,
    addSegment_query, hfirst, append_of_ne (concat_ne (by decide) _), List.append_assoc]
  rfl

theorem addSegment_ne_nil (h : front ≠ []) (segment : String) :
    addSegment special front segment ≠ [] := by
  rw [addSegment_eq]
  unfold append
  split_ifs <;> simp [h]

theorem length_addSegment_le (segment : String) :
    (addSegment special front segment).length ≤ front.length + 1 := by
  rw [addSegment_eq]
  unfold append
  split_ifs <;> simp

end Url

namespace Scheduler

variable {s : Scheduler} {below : List String} {service : String}

/-- The segments of the next address. -/
theorem sited_nextUrl (h : s.base.Sited below) (service : String) (apiKey : Option String)
    (notBefore expires : Instant) :
    (s.nextUrl service apiKey notBefore expires).Sited
      (Url.addSegment s.base.isSpecial (Url.serviceFront below) service) := by
  have hextended := h.extend ["v2", "query", service]
  rw [Url.foldl_addSegment_service] at hextended
  unfold nextUrl
  cases apiKey with
  | none => exact hextended
  | some key => exact (hextended.addPair _ _).addPair _ _

/-- The next address leads back to a service exactly if the base address is not spoilt by adding
    segments, and the service is added as it is. -/
theorem leadsBack_iff (h : s.base.Sited below) (hservice : service ≠ "") (apiKey : Option String)
    (notBefore expires : Instant) :
    Url.LeadsBack (s.nextUrl service apiKey notBefore expires).render
        (Url.withoutEmptyEnd below) service ↔
      below ≠ ["", ""] ∧ service ≠ "." ∧ service ≠ ".." ∧
        ∀ c ∈ service.toList, Url.isDropped c = false := by
  have sited := sited_nextUrl h service apiKey notBefore expires
  have hsegments :=
    sited.segmentsIn_render (Url.addSegment_ne_nil (by simp [Url.serviceFront]) service)
  rw [Url.LeadsBack, hsegments]
  constructor
  · rintro ⟨written, hadd, hdecoded, -⟩
    by_cases hbelow : below = ["", ""]
    · -- a segment is missing
      have hlen : (Url.addSegment s.base.isSpecial (Url.serviceFront below) service).length ≤ _ :=
        Url.length_addSegment_le service
      rw [hadd, hbelow] at hlen
      simp [Url.serviceFront, Url.withoutEmptyEnd] at hlen
    · have hfront : Url.serviceFront below = Url.withoutEmptyEnd below ++ ["v2", "query"] := by
        rw [Url.serviceFront, if_neg hbelow]
      refine ⟨hbelow, (Url.addSegment_service_iff Url.serviceFront_ne hservice).mp
        ⟨written, hadd.trans ?_, hdecoded⟩⟩
      rw [hfront, List.append_assoc]
      rfl
  · rintro ⟨hbelow, hkept⟩
    obtain ⟨written, hadd, hdecoded⟩ :=
      (Url.addSegment_service_iff Url.serviceFront_ne hservice).mpr hkept
    have hne : written.toList ≠ [] := by
      intro hnil
      rw [hnil] at hdecoded
      exact hservice (Option.some.inj hdecoded).symm
    have hslash : '/' ∉ written.toList := fun hmem =>
      (sited.parts written (hadd ▸ List.mem_append_right _ (List.mem_singleton_self written))
        '/' hmem).1 rfl
    refine ⟨written, ?_, hdecoded,
      fun m hmethod hpath => Url.route_of_decoded? hne hslash hdecoded hmethod hpath⟩
    rw [hadd, Url.serviceFront, if_neg hbelow, List.append_assoc]
    rfl

theorem web_of_valid {config : QueryConfig} (valid : config.fault? = none) :
    config.baseUrl.scheme = "http" ∨ config.baseUrl.scheme = "https" := by
  have hweb : QueryConfig.isWebUrl config.baseUrl := by
    unfold QueryConfig.fault? at valid
    split at valid
    · cases valid
    · split at valid
      · cases valid
      · next hweb => simpa using hweb
  rw [QueryConfig.isWebUrl, Bool.and_eq_true] at hweb
  simpa using hweb.1

/-- **The next address leads back to the service** that was asked for, for every client and every
    base address that a configuration can have, unless the service is one or two points or has a tab
    or a line break in it, or the path of the base address is two slashes. -/
theorem follows_up_iff {config : QueryConfig} {text : String}
    (read : Url.parse text = .ok config.baseUrl) (valid : config.fault? = none)
    (hbase : s.base = config.baseUrl) (hservice : service ≠ "") (c : Priority) (now : Instant)
    (load : LoadSignal) (apiKey : Option String) (d : Dice) :
    ∃ below, config.baseUrl.path = .segments below ∧
      (Url.LeadsBack (s.schedule c now load service apiKey d).1.next.url
        (Url.withoutEmptyEnd below) service ↔
        below ≠ ["", ""] ∧ service ≠ "." ∧ service ≠ ".." ∧
          ∀ ch ∈ service.toList, ch ≠ '\t' ∧ ch ≠ '\n' ∧ ch ≠ '\r') := by
  obtain ⟨below, sited⟩ := Url.sited_of_parse read (web_of_valid valid)
  rw [← hbase] at sited
  refine ⟨below, hbase ▸ sited.path, (leadsBack_iff sited hservice apiKey _ _).trans ?_⟩
  simp [Url.isDropped, and_assoc]

/-! ## A service that is found again, and one that is not -/

/-- A service below another path, with standard settings. -/
def sampleConfig : QueryConfig where
  listener := ⟨"0.0.0.0", 8080⟩
  adminListener := ⟨"0.0.0.0", 8081⟩
  baseUrl := { scheme := "https", host := some "locate.example.net", path := .segments ["api", ""] }
  tokenSecret := "secret"

theorem parse_sampleBase :
    Url.parse "https://locate.example.net/api/" = .ok sampleConfig.baseUrl := by
  decide

/-- A scheduler by the sample configuration. -/
def sampleScheduler : Scheduler where
  pacing := sampleConfig.pacing
  signer := ⟨Token.octets sampleConfig.tokenSecret⟩
  base := sampleConfig.baseUrl
  math := ⟨id, id, id, id⟩

/-- What a client is told about its next request in November 2023. -/
def sampleFollowUp (service : String) (apiKey : Option String) : String :=
  (sampleScheduler.schedule .global ⟨1700000000 * nanosPerSecond⟩ ⟨1.0, false, false⟩ service apiKey
    (.ofWords #[0x8000000000000000])).1.next.url

theorem follows_up_iff_sample : sampleConfig.fault? = none ∧
    Url.LeadsBack (sampleFollowUp "a b/%09/ü?#" (some "key1")) ["api"] "a b/%09/ü?#" := by
  have valid : sampleConfig.fault? = none := by decide +kernel
  have hbase : sampleScheduler.base = sampleConfig.baseUrl := rfl
  have hservice : "a b/%09/ü?#" ≠ "" := by decide
  obtain ⟨below, hpath, hiff⟩ := follows_up_iff parse_sampleBase valid hbase hservice .global
    ⟨1700000000 * nanosPerSecond⟩ ⟨1.0, false, false⟩ (some "key1") (.ofWords #[0x8000000000000000])
  cases hpath
  exact ⟨valid, hiff.mpr ⟨by decide, by decide, by decide, by simp⟩⟩

/-- A tab in a service is not in the address that the client is told, which leads
    to another service. -/
theorem tab_lost :
    sampleConfig.fault? = none ∧
      Url.parse "https://locate.example.net/api/" = .ok sampleConfig.baseUrl ∧
    sampleFollowUp "a\tb" none = "https://locate.example.net/api/v2/query/ab" ∧
    ¬ Url.LeadsBack (sampleFollowUp "a\tb" none) ["api"] "a\tb" := by
  have htold : sampleFollowUp "a\tb" none = "https://locate.example.net/api/v2/query/ab" := by
    decide +kernel
  refine ⟨by decide +kernel, parse_sampleBase, htold, ?_⟩
  rintro ⟨written, hsegments, hdecoded, -⟩
  have hread : Url.segmentsIn "https://locate.example.net/api/v2/query/ab" =
      ["api", "v2", "query", "ab"] := by
    decide +kernel
  rw [htold, hread] at hsegments
  obtain rfl : "ab" = written := by simpa using hsegments
  exact absurd hdecoded (by decide +kernel)

end Scheduler

end Roster
