import Roster.Proofs.Url.Host
import Roster.Url.Parser

/-!
# What is read as an address

Whatever an address is read from, none of its parts has a character in it that ends one: the
credentials and the path because such characters are encoded there, or the text was split at them,
and the host by `undivided_of_domainHost` and `undivided_of_opaqueHost`. The address of a web server
has all these parts (`sited_of_parse`).
-/

namespace Roster.Url

variable {text cs rest : List Char} {scheme : String} {u : Url} {parts : List String}
  {isFile : Bool}

/-! ## Paths -/

theorem mem_shorten {part : String} (h : part ∈ shorten isFile parts) : part ∈ parts := by
  unfold shorten at h
  split at h
  · split at h
    · exact h
    · cases h
  · exact List.dropLast_subset _ h

/-- A drive is written with a colon, which ends no part. -/
theorem undivided_drive {segment : String} (h : Undivided segment.toList) :
    Undivided (drive isFile parts segment).toList := by
  unfold drive
  split
  · next c hsegment =>
    rw [hsegment] at h
    split
    · rw [String.toList_ofList]
      exact (h.of_subset (by simp) : Undivided [c]).append (by decide)
    · rwa [hsegment]
  · exact h

/-- Resolving points takes segments away and may leave an empty one. -/
theorem undivided_resolve {raw : List String} (hparts : ∀ part ∈ parts, Undivided part.toList)
    (hraw : ∀ part ∈ raw, Undivided part.toList) :
    ∀ part ∈ resolve isFile parts raw, Undivided part.toList := by
  induction raw generalizing parts with
  | nil => exact hparts
  | cons segment rest ih =>
    obtain ⟨hsegment, hrest⟩ := List.forall_mem_cons.mp hraw
    have hending : ∀ part ∈ if rest.isEmpty then [""] else [], Undivided part.toList := by
      split
      · simp [Undivided.nil]
      · exact nofun
    refine ih ?_ hrest
    split
    · exact List.forall_mem_append.mpr ⟨fun part hpart => hparts part (mem_shorten hpart), hending⟩
    · split
      · exact List.forall_mem_append.mpr ⟨hparts, hending⟩
      · exact List.forall_mem_append.mpr
          ⟨hparts, List.forall_mem_singleton.mpr (undivided_drive hsegment)⟩

/-- No segment of a path has a character that ends one. -/
theorem undivided_segmentsOf (special isFile : Bool) (cs : List Char) :
    ∀ part ∈ segmentsOf special isFile cs, Undivided part.toList := by
  refine undivided_resolve nofun fun part hpart => ?_
  obtain ⟨piece, hpiece, rfl⟩ := List.mem_map.mp hpart
  rw [String.toList_ofList]
  refine .encodeWith fun c hc hset => ⟨?_, ?_, ?_⟩
  · rintro rfl
    have hslash := (of_mem_splitOnP hpiece _ hc).2
    cases special <;> cases hslash
  · rintro rfl
    cases hset
  · rintro rfl
    cases hset

theorem undivided_takePath (special isFile : Bool) (cs : List Char) :
    ∀ part ∈ (takePath special isFile cs).1, Undivided part.toList := by
  intro part hpart
  unfold takePath at hpart
  generalize cs.span (fun c => c ≠ '?' && c ≠ '#') = split at hpart
  obtain ⟨path, rest⟩ := split
  cases path with
  | nil =>
    have hempty : part = "" := by
      cases special with
      | false => cases hpart
      | true => exact List.mem_singleton.mp hpart
    rw [hempty]
    exact .nil
  | cons c tail => exact undivided_segmentsOf special isFile _ part hpart

/-! ## What stands before the path -/

theorem undivided_inUserInfo (cs : List Char) : Undivided (encodeWith inUserInfo cs) := by
  refine .encodeWith fun c _ hset => ⟨?_, ?_, ?_⟩ <;> (rintro rfl; cases hset)

theorem undivided_credentialsOf (cs : List Char) :
    Undivided (credentialsOf cs).1.toList ∧ Undivided (credentialsOf cs).2.toList := by
  simp only [credentialsOf, String.toList_ofList]
  exact ⟨undivided_inUserInfo _, undivided_inUserInfo _⟩

theorem colon_not_mem_of_special (special : isSpecialScheme scheme) : ':' ∉ scheme.toList := by
  obtain ⟨known, hknown, heq⟩ := List.lookup_isSome_iff.mp special
  have hlist : ∀ known ∈ specialSchemes, ':' ∉ known.1.toList := by decide
  rw [beq_iff_eq.mp heq]
  exact hlist known hknown

/-- What an authority that can be read is read as. Its host is one of two kinds. -/
theorem takeAuthority_eq_ok (h : takeAuthority scheme text = .ok u) :
    ∃ username password hostText host port, Undivided username.toList ∧ Undivided password.toList ∧
      (domainHost hostText = .ok host ∨ opaqueHost hostText = .ok host) ∧
      u = { scheme, username, password, host := some host, port, path := .segments [] } := by
  have hcredentials := undivided_credentialsOf
  have hnone : Undivided ("" : String).toList := .nil
  unfold takeAuthority at h
  simp only [bind, Except.bind, pure, Except.pure, throw, throwThe, MonadExceptOf.throw] at h
  repeat' split at h
  all_goals cases h
  · next hhost _ _ _ => exact ⟨_, _, _, _, _, hnone, hnone, .inl hhost, rfl⟩
  · next hhost _ _ _ => exact ⟨_, _, _, _, _, hnone, hnone, .inr hhost, rfl⟩
  · next hhost _ _ _ =>
      exact ⟨_, _, _, _, _, (hcredentials _).1, (hcredentials _).2, .inl hhost, rfl⟩
  · next hhost _ _ _ =>
      exact ⟨_, _, _, _, _, (hcredentials _).1, (hcredentials _).2, .inr hhost, rfl⟩

/-- An authority that can be read makes an address with a host, and with no path yet. -/
theorem sited_of_takeAuthority (hscheme : ':' ∉ scheme.toList)
    (h : takeAuthority scheme text = .ok u) :
    Sited u [] := by
  obtain ⟨username, password, hostText, host, port, husername, hpassword, hhost, rfl⟩ :=
    takeAuthority_eq_ok h
  have hundivided : Undivided host.toList :=
    hhost.elim undivided_of_domainHost undivided_of_opaqueHost
  exact ⟨hscheme, ⟨host, rfl, hundivided⟩, husername, hpassword, rfl, nofun⟩

/-- What comes after the authority is the path, and then the query and the fragment. -/
theorem withAuthority_eq_ok (h : withAuthority scheme text = .ok u) :
    ∃ authority site rest, takeAuthority scheme authority = .ok site ∧
      u = { site with
        path := .segments (takePath (isSpecialScheme scheme) false rest).1
        query :=
          (takeQuery (isSpecialScheme scheme) (takePath (isSpecialScheme scheme) false rest).2).1
        fragment :=
          (takeQuery (isSpecialScheme scheme)
            (takePath (isSpecialScheme scheme) false rest).2).2 } := by
  unfold withAuthority at h
  simp only [bind, Except.bind, pure, Except.pure] at h
  split at h
  · cases h
  · next hauthority =>
    cases h
    exact ⟨_, _, _, hauthority, rfl⟩

/-- What is read after an authority has a path of segments. -/
theorem sited_of_withAuthority (hscheme : ':' ∉ scheme.toList)
    (h : withAuthority scheme text = .ok u) :
    ∃ parts, Sited u parts := by
  obtain ⟨authority, site, rest, hauthority, rfl⟩ := withAuthority_eq_ok h
  have sited := sited_of_takeAuthority hscheme hauthority
  exact ⟨_, sited.scheme, sited.host, sited.username, sited.password, rfl, undivided_takePath _ _ _⟩

/-! ## Schemes -/

theorem scheme_of_takeAuthority (h : takeAuthority scheme text = .ok u) : u.scheme = scheme := by
  obtain ⟨_, _, _, _, _, -, -, -, rfl⟩ := takeAuthority_eq_ok h
  rfl

theorem scheme_of_parseGeneric (h : parseGeneric scheme text = .ok u) : u.scheme = scheme := by
  unfold parseGeneric at h
  split at h
  · obtain ⟨authority, site, rest, hauthority, rfl⟩ := withAuthority_eq_ok h
    have hscheme : site.scheme = scheme := scheme_of_takeAuthority hauthority
    exact hscheme
  · cases h
    rfl
  · cases h
    rfl

theorem scheme_of_parseFile (h : parseFile text = .ok u) : u.scheme = "file" := by
  unfold parseFile at h
  simp only [bind, Except.bind, pure, Except.pure] at h
  repeat' split at h
  all_goals cases h
  all_goals rfl

/-- **What is read as the address of a web server is undivided in all its parts.** -/
theorem sited_of_parse {written : String} (h : parse written = .ok u)
    (web : u.scheme = "http" ∨ u.scheme = "https") :
    ∃ parts, Sited u parts := by
  unfold parse at h
  split at h
  · cases h
  · split at h
    · -- a file is no web server
      rw [scheme_of_parseFile h] at web
      exact absurd web (by decide)
    · split at h
      · next special => exact sited_of_withAuthority (colon_not_mem_of_special special) h
      · next hgeneric =>
        rw [scheme_of_parseGeneric h] at web
        rcases web with rfl | rfl <;> exact absurd rfl hgeneric

end Roster.Url
