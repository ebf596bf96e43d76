import Roster.Http.Api
import Roster.Proofs.Url.Percent

/-!
# Routing

How a request for the targets of a service is routed. There are three ways
(`routeQuery_of_undecoded`, `routeQuery_of_repeated`, `routeQuery_of_readable`), and it depends on
the path and on the names of the parameters alone which one it is. That a parameter is repeated is
said here of the list of all that are given (`repeated?_eq_none_iff`).
-/

namespace Roster.Http

open Url (decoded? formPairs)

/-! ## Repetitions -/

/-- The known parameters that are given, in their order. -/
def known (pairs : List (String × String)) : List String :=
  (pairs.map Prod.fst).filter parameterNames.contains

/-- Nothing is repeated if no known parameter is given twice, and none that has been given. -/
theorem repeated?_eq_none_iff {pairs : List (String × String)} {seen : List String} :
    repeated? seen pairs = none ↔ (known pairs).Nodup ∧ ∀ name ∈ known pairs, name ∉ seen := by
  induction pairs generalizing seen with
  | nil => simp [repeated?, known]
  | cons pair rest ih =>
    obtain ⟨name, value⟩ := pair
    rw [repeated?]
    by_cases hname : parameterNames.contains name
    · have hknown : known ((name, value) :: rest) = name :: known rest :=
        List.filter_cons_of_pos hname
      rw [if_neg (by rw [hname]; exact Bool.false_ne_true), hknown, List.nodup_cons,
        List.forall_mem_cons]
      by_cases hseen : seen.contains name
      · rw [if_pos hseen]
        exact iff_of_false nofun fun h => h.2.1 (List.contains_iff_mem.mp hseen)
      · rw [if_neg hseen, ih]
        have hnew : name ∉ seen := mt List.contains_iff_mem.mpr hseen
        constructor
        · rintro ⟨hnodup, hrest⟩
          refine ⟨⟨fun hmem => hrest name hmem List.mem_cons_self, hnodup⟩, hnew,
            fun other hother => ?_⟩
          exact fun hmem => hrest other hother (List.mem_cons_of_mem _ hmem)
        · rintro ⟨⟨hfresh, hnodup⟩, -, hrest⟩
          refine ⟨hnodup, fun other hother hmem => ?_⟩
          obtain rfl | hmem := List.mem_cons.mp hmem
          · exact hfresh hother
          · exact hrest other hother hmem
    · have hknown : known ((name, value) :: rest) = known rest := List.filter_cons_of_neg hname
      rw [if_pos (by rw [Bool.not_eq_true] at hname; rw [hname]; rfl), hknown, ih]

/-! ## Routing -/

variable {m : Message} {written service : String}

/-- A request for a service that is written without a slash is one for a query. -/
theorem route_written (hmethod : m.method = "GET") (hpath : m.target.path = "/v2/query/" ++ written)
    (hne : written ≠ "") (hslash : '/' ∉ written.toList) : route m = routeQuery m written := by
  have hnil : written.toList ≠ [] := mt String.toList_eq_nil_iff.mp hne
  have hservice : serviceOf? m.target.path = some written := by
    rw [hpath, serviceOf?]
    simp [String.toList_append, hnil, hslash]
  rw [route, hservice]
  exact if_pos (.inl hmethod)

/-- A service that cannot be decoded is refused in plain text. -/
theorem routeQuery_of_undecoded (h : decoded? written.toList = none) :
    routeQuery m written =
      .reply (.plain 400 ("Invalid URL: Invalid UTF-8 in " ++ marked "service")) := by
  have hutf8 : String.fromUTF8? ⟨(Url.decodeOctets written.toList).toArray⟩ = none := h
  simp only [routeQuery, hutf8]

/-- A parameter that is repeated is refused in plain text. -/
theorem routeQuery_of_repeated {name : String} (h : decoded? written.toList = some service)
    (hrepeated : repeated? [] (formPairs (m.target.query.getD "").toList) = some name) :
    routeQuery m written =
      .reply (.plain 400 ("Failed to deserialize query string: duplicate field " ++
        marked name)) := by
  have hutf8 : String.fromUTF8? ⟨(Url.decodeOctets written.toList).toArray⟩ = some service := h
  simp only [routeQuery, hutf8, hrepeated]

theorem routeQuery_of_readable (h : decoded? written.toList = some service)
    (hrepeated : repeated? [] (formPairs (m.target.query.getD "").toList) = none) :
    routeQuery m written = queryOf m service (formPairs (m.target.query.getD "").toList) := by
  have hutf8 : String.fromUTF8? ⟨(Url.decodeOctets written.toList).toArray⟩ = some service := h
  simp only [routeQuery, hutf8, hrepeated]

/-- What is found to be wrong with a parameter is about the path, and so is the request. -/
theorem queryOf_cases (m : Message) (service : String) (parameters : List (String × String)) :
    (∃ detail, queryOf m service parameters = .reply (invalidParameter m.target.path detail)) ∨
      ∃ r, queryOf m service parameters = .query r ∧ r.path = m.target.path := by
  dsimp only [queryOf]
  split
  · exact .inl ⟨_, rfl⟩
  · split
    · exact .inl ⟨_, rfl⟩
    · exact .inr ⟨_, rfl, rfl⟩

end Roster.Http
