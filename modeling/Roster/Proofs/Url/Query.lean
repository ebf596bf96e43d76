import Mathlib.Data.List.TakeWhile
import Roster.Proofs.Url.Form
import Roster.Proofs.Url.Parser

/-!
# The query in the text of an address

What a client gets from an address in a text is what stands after its first question mark, up to a
number sign (`queryIn`). That this is the query which the address was made with takes less than it
does for the path: nothing before the query may have one of the two signs in it, and the query no
number sign (`queryIn_render`). So this is said of every address that can be read, whatever its
scheme is, with a host or without one (`delimited_of_parse`).
-/

namespace Roster.Url

variable {u : Url} {scheme : String} {cs rest rest' : List Char} {c : Char} {special : Bool}

/-! ## What ends a path -/

/-- No character in which everything ends that stands before a query. -/
def Unmarked (cs : List Char) : Prop :=
  ∀ c ∈ cs, c ≠ '?' ∧ c ≠ '#'

instance : DecidablePred Unmarked := fun cs => List.decidableBAll _ cs

namespace Unmarked

variable {cs' : List Char}

theorem nil : Unmarked [] :=
  nofun

theorem append (h : Unmarked cs) (h' : Unmarked cs') : Unmarked (cs ++ cs') :=
  List.forall_mem_append.mpr ⟨h, h'⟩

end Unmarked

theorem Undivided.unmarked (h : Undivided cs) : Unmarked cs :=
  fun c hc => (h c hc).2

/-- An address of which no part has a character that ends the path, or the query. -/
structure Delimited (u : Url) : Prop where
  scheme : Unmarked u.scheme.toList
  username : Unmarked u.username.toList
  password : Unmarked u.password.toList
  host : ∀ host, u.host = some host → Unmarked host.toList
  segments : ∀ parts, u.path = .segments parts → ∀ part ∈ parts, Undivided part.toList
  opaqueText : ∀ text, u.path = .opaqueText text → Unmarked text.toList
  query : ∀ query, u.query = some query → '#' ∉ query.toList

/-! ## Reading the query -/

/-- What stands after the path of an address is the query, and then what starts
    where a query ends. -/
theorem exists_ending (u : Url) : ∃ ending, u.render.toList =
      (u.scheme ++ ":" ++ u.authority ++ u.pathText).toList ++
        (u.query.elim [] (fun query => '?' :: query.toList) ++ ending) ∧
    ending.takeWhile (fun c => c ≠ '#') = [] := by
  unfold render
  cases u.fragment with
  | none =>
    refine ⟨[], ?_, rfl⟩
    cases u.query with
    | none => simp
    | some query => simp
  | some fragment =>
    refine ⟨'#' :: fragment.toList, ?_, rfl⟩
    cases u.query with
    | none => simp
    | some query => simp

/-- What stands after the first question mark of an address, unless that is in the fragment. -/
def queryIn (text : String) : Option String :=
  match (text.toList.takeWhile (· ≠ '#')).dropWhile (· ≠ '?') with
  | _ :: query => some (.ofList query)
  | [] => none

namespace Delimited

theorem unmarked_credentials (h : Delimited u) : Unmarked u.credentials.toList := by
  unfold credentials
  split
  · exact .nil
  · rw [String.toList_append, String.toList_append]
    refine (h.username.append ?_).append (by decide)
    split
    · exact .nil
    · rw [String.toList_append]
      exact Unmarked.append (by decide) h.password

theorem unmarked_authority (h : Delimited u) : Unmarked u.authority.toList := by
  unfold authority
  split
  · next host hhost =>
    simp only [String.toList_append]
    refine ((Unmarked.append (by decide) h.unmarked_credentials).append
      (h.host host hhost)).append ?_
    split
    · rw [String.toList_append]
      exact Unmarked.append (by decide) (undivided_toString _).unmarked
    · exact .nil
  · split
    · decide
    · exact .nil

theorem unmarked_pathText (h : Delimited u) : Unmarked u.pathText.toList := by
  unfold pathText
  split
  · next parts hpath =>
    rw [String.toList_join]
    intro c hc
    obtain ⟨text, htext, hc⟩ := List.mem_flatMap.mp hc
    obtain ⟨part, hpart, rfl⟩ := List.mem_map.mp htext
    rw [String.toList_append] at hc
    exact Unmarked.append (by decide) (h.segments parts hpath part hpart).unmarked c hc
  · next text hpath => exact h.opaqueText text hpath

/-- What stands in front of a query has none of its marks. -/
theorem unmarked_front (h : Delimited u) :
    Unmarked (u.scheme ++ ":" ++ u.authority ++ u.pathText).toList := by
  simp only [String.toList_append]
  exact ((h.scheme.append (by decide)).append h.unmarked_authority).append h.unmarked_pathText

/-- **The query that is read off the text is the query that was written.** -/
theorem queryIn_render (h : Delimited u) : queryIn u.render = u.query := by
  obtain ⟨ending, hrender, hending⟩ := u.exists_ending
  have hfront := h.unmarked_front
  generalize (u.scheme ++ ":" ++ u.authority ++ u.pathText).toList = front at hrender hfront
  have hmark : ∀ c ∈ front, decide (c ≠ '#') = true := fun c hc => decide_eq_true (hfront c hc).2
  have hquestion : ∀ c ∈ front, decide (c ≠ '?') = true :=
    fun c hc => decide_eq_true (hfront c hc).1
  have hwritten : ∀ c ∈ u.query.elim [] (fun query => '?' :: query.toList),
      decide (c ≠ '#') = true := by
    cases hquery : u.query with
    | none => exact nofun
    | some query =>
      intro c hc
      refine decide_eq_true ?_
      rintro rfl
      rcases List.mem_cons.mp hc with heq | hc
      · cases heq
      · exact h.query query hquery hc
  rw [queryIn, hrender, List.takeWhile_append_of_pos hmark,
    List.takeWhile_append_of_pos hwritten, hending, List.append_nil,
    List.dropWhile_append_of_pos hquestion]
  cases u.query with
  | none => rfl
  | some query => simp

end Delimited

/-! ## Adding segments and pairs -/

namespace Delimited

theorem extend (h : Delimited u) (segments : List String) : Delimited (u.extend segments) := by
  cases hpath : u.path with
  | opaqueText text =>
    have hextend : u.extend segments = u := by rw [Url.extend, hpath]
    rwa [hextend]
  | segments parts =>
    rw [extend_eq hpath]
    exact { h with
      segments := by
        rintro _ ⟨⟩
        exact undivided_foldl_addSegment (undivided_stem (h.segments parts hpath)) segments
      opaqueText := by
        intro text htext
        cases htext }

theorem addPair (h : Delimited u) (name value : String) : Delimited (u.addPair name value) := by
  have hpair : '#' ∉ formPair name value := not_mem_formPair (by simp) name value
  refine { h with query := ?_ }
  rintro _ ⟨⟩
  split
  · simpa using hpair
  · simpa using hpair
  · next query hempty hquery =>
    have hbefore := h.query query hquery
    simpa using ⟨hbefore, hpair⟩

end Delimited

theorem query_extend (u : Url) (segments : List String) : (u.extend segments).query = u.query := by
  unfold extend
  split
  · rfl
  · rfl

/-! ## Addresses that were read -/

theorem isLower_toLower (h : c.isUpper) : c.toLower.isLower := by
  have table : ∀ n : Fin 26, (Char.ofNat (65 + n.val)).toLower.isLower := by decide
  have hbounds : 65 ≤ c.toNat ∧ c.toNat ≤ 90 := of_decide_eq_true h
  have hletter := table ⟨c.toNat - 65, by omega⟩
  rwa [Nat.add_sub_cancel' hbounds.1, Char.ofNat_toNat] at hletter

/-- A scheme is made of letters, digits and three signs. -/
theorem of_mem_scheme (h : takeScheme cs = some (scheme, rest)) :
    ∀ c ∈ scheme.toList, c ≠ ':' ∧ c ≠ '?' ∧ c ≠ '#' := by
  intro c hc
  unfold takeScheme at h
  rw [List.span_eq_takeWhile_dropWhile] at h
  dsimp only at h
  split at h
  · split at h
    · cases h
      rw [String.toList_ofList] at hc
      obtain ⟨d, hd, rfl⟩ := List.mem_map.mp hc
      have hallowed := List.mem_takeWhile_imp hd
      by_cases hupper : d.isUpper
      · have hlower := isLower_toLower hupper
        refine ⟨?_, ?_, ?_⟩ <;> (intro heq; rw [heq] at hlower; cases hlower)
      · have hkept : d.toLower = d := dif_neg fun hbounds => hupper (decide_eq_true hbounds)
        rw [hkept]
        refine ⟨?_, ?_, ?_⟩ <;> (rintro rfl; cases hallowed)
    · cases h
  · cases h

theorem mark_not_mem_takeQuery {query : String} (h : (takeQuery special cs).1 = some query) :
    '#' ∉ query.toList := by
  unfold takeQuery at h
  split at h
  · cases h
    rw [String.toList_ofList]
    intro hmem
    rcases mem_encodeWith hmem with hdigit | ⟨-, -, hset⟩
    · exact absurd hdigit (by decide)
    · cases special <;> cases hset
  · cases h

theorem unmarked_encodeWith_takeWhile {set : Char → Bool} (cs : List Char) :
    Unmarked (encodeWith set (cs.takeWhile fun c => c ≠ '?' && c ≠ '#')) := by
  have digits : Unmarked "%0123456789ABCDEF".toList := by decide
  intro c hc
  rcases mem_encodeWith hc with hdigit | ⟨hmem, -, -⟩
  · exact digits c hdigit
  · simpa using List.mem_takeWhile_imp hmem

/-- An address with a host is delimited if its query is. -/
theorem Sited.delimited {parts : List String} (h : Sited u parts)
    (hscheme : Unmarked u.scheme.toList)
    (hquery : ∀ query, u.query = some query → '#' ∉ query.toList) : Delimited u where
  scheme := hscheme
  username := h.username.unmarked
  password := h.password.unmarked
  host := by
    intro host hhost
    obtain ⟨host', hhost', hundivided⟩ := h.host
    rw [hhost', Option.some.injEq] at hhost
    exact hhost ▸ hundivided.unmarked
  segments := by
    intro parts' hparts
    rw [h.path, Path.segments.injEq] at hparts
    exact hparts ▸ h.parts
  opaqueText := by
    intro text htext
    rw [h.path] at htext
    cases htext
  query := hquery

/-- What is read after an authority is delimited. -/
theorem delimited_of_withAuthority (hscheme : ∀ c ∈ scheme.toList, c ≠ ':' ∧ c ≠ '?' ∧ c ≠ '#')
    (h : withAuthority scheme cs = .ok u) : Delimited u := by
  obtain ⟨parts, sited⟩ := sited_of_withAuthority (fun hmem => (hscheme ':' hmem).1 rfl) h
  obtain ⟨authority, site, rest, hauthority, rfl⟩ := withAuthority_eq_ok h
  refine sited.delimited ?_ fun query hquery => mark_not_mem_takeQuery hquery
  intro c hc
  have hc' : c ∈ scheme.toList := scheme_of_takeAuthority hauthority ▸ hc
  exact (hscheme c hc').2

/-- An address without credentials, of which the query is read last. -/
theorem delimited_of_takeQuery {host : Option String} {path : Path}
    (hscheme : Unmarked scheme.toList) (hhost : ∀ text, host = some text → Unmarked text.toList)
    (hsegments : ∀ parts, path = .segments parts → ∀ part ∈ parts, Undivided part.toList)
    (hwhole : ∀ text, path = .opaqueText text → Unmarked text.toList) (special : Bool)
    (cs : List Char) :
    Delimited {
      scheme, host, path, query := (takeQuery special cs).1
      fragment := (takeQuery special cs).2 } where
  scheme := hscheme
  username := .nil
  password := .nil
  host := hhost
  segments := hsegments
  opaqueText := hwhole
  query := fun _ hquery => mark_not_mem_takeQuery hquery

theorem delimited_of_parseGeneric (hscheme : ∀ c ∈ scheme.toList, c ≠ ':' ∧ c ≠ '?' ∧ c ≠ '#')
    (h : parseGeneric scheme cs = .ok u) : Delimited u := by
  have hunmarked : Unmarked scheme.toList := fun c hc => (hscheme c hc).2
  unfold parseGeneric at h
  split at h
  · exact delimited_of_withAuthority hscheme h
  · next tail _ =>
    have hread : Except.ok {
        scheme, path := .segments (takePath false false ('/' :: tail)).1
        query := (takeQuery false (takePath false false ('/' :: tail)).2).1
        fragment := (takeQuery false (takePath false false ('/' :: tail)).2).2 } = Except.ok u := h
    rw [← Except.ok.inj hread]
    refine delimited_of_takeQuery hunmarked ?_ ?_ ?_ false _
    · exact nofun
    · intro parts hparts
      rw [← Path.segments.inj hparts]
      exact undivided_takePath _ _ _
    · exact nofun
  · rw [List.span_eq_takeWhile_dropWhile] at h
    have hread : Except.ok {
        scheme
        path := .opaqueText
          (.ofList (encodeWith inOpaque (cs.takeWhile fun c => c ≠ '?' && c ≠ '#')))
        query := (takeQuery false (cs.dropWhile fun c => c ≠ '?' && c ≠ '#')).1
        fragment := (takeQuery false (cs.dropWhile fun c => c ≠ '?' && c ≠ '#')).2 } =
          Except.ok u := h
    rw [← Except.ok.inj hread]
    refine delimited_of_takeQuery hunmarked ?_ ?_ ?_ false _
    · exact nofun
    · exact nofun
    · intro text htext
      rw [← Path.opaqueText.inj htext, String.toList_ofList]
      exact unmarked_encodeWith_takeWhile cs

/-- The host of a file that is named. -/
theorem undivided_of_map_domainHost {host : String}
    (h : (domainHost cs).map (fun host => (if host = "localhost" then "" else host, rest)) =
      .ok (host, rest')) :
    Undivided host.toList := by
  cases hhost : domainHost cs with
  | error e => rw [hhost] at h; cases h
  | ok named =>
    rw [hhost] at h
    cases h
    split
    · exact .nil
    · exact undivided_of_domainHost hhost

theorem undivided_of_takeFileHost {host : String} (h : takeFileHost cs = .ok (host, rest)) :
    Undivided host.toList := by
  have hempty : Undivided ("" : String).toList := .nil
  unfold takeFileHost at h
  generalize cs.span (fun c => !endsAuthority true c) = taken at h
  obtain ⟨text, after⟩ := taken
  match text with
  | [] =>
    cases h
    exact hempty
  | [_] => exact undivided_of_map_domainHost h
  | [a, b] =>
    dsimp only at h
    split at h
    · cases h
      exact hempty
    · exact undivided_of_map_domainHost h
  | _ :: _ :: _ :: _ => exact undivided_of_map_domainHost h

theorem mem_trimFilePath {part : String} :
    ∀ {parts : List String}, part ∈ trimFilePath parts → part ∈ parts := by
  intro parts h
  fun_induction trimFilePath parts with
  | case1 p rest ih => exact List.mem_cons_of_mem _ (ih h)
  | case2 parts _ => exact h

/-- What is read of the address of a file: a host and a path of segments, without credentials. -/
theorem parseFile_eq_ok (h : parseFile cs = .ok u) : ∃ host rest, Undivided host.toList ∧
    u = {
      scheme := "file", host := some host
      path := .segments (trimFilePath (takePath true true rest).1)
      query := (takeQuery true (takePath true true rest).2).1
      fragment := (takeQuery true (takePath true true rest).2).2 } := by
  have hempty : Undivided ("" : String).toList := .nil
  unfold parseFile at h
  simp only [bind, Except.bind, pure, Except.pure] at h
  repeat' split at h
  all_goals cases h
  · next hhost => exact ⟨_, _, undivided_of_takeFileHost hhost, rfl⟩
  · exact ⟨"", _, hempty, rfl⟩
  · exact ⟨"", _, hempty, rfl⟩

theorem delimited_of_parseFile (h : parseFile cs = .ok u) : Delimited u := by
  obtain ⟨host, rest, hhost, rfl⟩ := parseFile_eq_ok h
  refine delimited_of_takeQuery (by decide) ?_ ?_ ?_ true _
  · rintro _ ⟨⟩
    exact hhost.unmarked
  · intro parts hparts part hpart
    rw [← Path.segments.inj hparts] at hpart
    exact undivided_takePath _ _ _ part (mem_trimFilePath hpart)
  · exact nofun

/-- **Every address that can be read is delimited.** -/
theorem delimited_of_parse {text : String} (h : parse text = .ok u) : Delimited u := by
  unfold parse at h
  split at h
  · cases h
  · next scheme rest hscheme =>
    have hchars := of_mem_scheme hscheme
    split at h
    · exact delimited_of_parseFile h
    · split at h
      · exact delimited_of_withAuthority hchars h
      · exact delimited_of_parseGeneric hchars h

end Roster.Url
