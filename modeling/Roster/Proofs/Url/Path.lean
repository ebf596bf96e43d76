import Mathlib.Data.List.Basic
import Mathlib.Tactic.Cases
import Roster.Proofs.Url.Percent
import Roster.Url.Basic

/-!
# The path in the text of an address

An address is told and passed on as a text, so what its path is has to be read off the text: what
stands between the host and the query or the fragment. That these are the segments that the address
was made of (`segmentsIn_render`) takes that no part has a character in it that ends a part, a
slash, a question mark or a number sign, and that there is a host, since without one the slashes of
the path could be taken for those before a host.

Adding segments keeps the ones that are there, with one exception. A path that is empty after
its last segment was filled, which is the path of two slashes, is taken for the path of a
root (`extend_start`).
-/

namespace Roster.Url

variable {u : Url} {parts : List String} {cs cs' : List Char} {c : Char} {special : Bool}

/-! ## What ends a part -/

/-- No character in which a part of an address ends. -/
def Undivided (cs : List Char) : Prop :=
  ∀ c ∈ cs, c ≠ '/' ∧ c ≠ '?' ∧ c ≠ '#'

-- by the characters of the list, not by all that there are
instance : DecidablePred Undivided := fun cs => List.decidableBAll _ cs

namespace Undivided

theorem nil : Undivided [] :=
  nofun

theorem append (h : Undivided cs) (h' : Undivided cs') : Undivided (cs ++ cs') := by
  intro c hc
  exact (List.mem_append.mp hc).elim (h c) (h' c)

theorem of_subset (h : Undivided cs) (hs : cs' ⊆ cs) : Undivided cs' :=
  fun c hc => h c (hs hc)

theorem of_isDigit (h : ∀ c ∈ cs, c.isDigit) : Undivided cs := by
  intro c hc
  refine ⟨?_, ?_, ?_⟩ <;> (rintro rfl; exact absurd (h _ hc) (by decide))

/-- What is percent-encoded is undivided if the text is, as far as it is not encoded. -/
theorem encodeWith {set : Char → Bool} (h : ∀ c ∈ cs, set c = false → c ≠ '/' ∧ c ≠ '?' ∧ c ≠ '#') :
    Undivided (encodeWith set cs) := by
  have digits : Undivided "%0123456789ABCDEF".toList := by decide
  intro c hc
  rcases mem_encodeWith hc with hdigit | ⟨hmem, -, hset⟩
  · exact digits c hdigit
  · exact h c hmem hset

end Undivided

/-! ## Reading the path -/

/-- What stands between the host and the query or the fragment. -/
def pathIn (text : List Char) : List Char :=
  let afterHost :=
    match (text.dropWhile (· ≠ ':')).drop 1 with
    | '/' :: '/' :: rest => rest.dropWhile fun c => c ≠ '/' && c ≠ '?' && c ≠ '#'
    | rest => rest
  afterHost.takeWhile fun c => c ≠ '?' && c ≠ '#'

/-- The segments of the path, each as it is written after its slash. -/
def segmentsIn (text : String) : List String :=
  (((pathIn text.toList).splitOn '/').drop 1).map .ofList

/-- An address with a host, of which no part has a character that ends one. -/
structure Sited (u : Url) (parts : List String) : Prop where
  scheme : ':' ∉ u.scheme.toList
  host : ∃ host, u.host = some host ∧ Undivided host.toList
  username : Undivided u.username.toList
  password : Undivided u.password.toList
  path : u.path = .segments parts
  parts : ∀ part ∈ parts, Undivided part.toList

theorem undivided_toString (n : Nat) : Undivided (toString n).toList := by
  refine .of_isDigit fun c hc => ?_
  change c ∈ n.repr.toList at hc
  rw [Nat.toList_repr] at hc
  exact Nat.isDigit_of_mem_toDigits (by decide) (by decide) hc

/-- Slashes before all segments are slashes between them and an empty one before them. -/
theorem flatMap_slash_eq (pieces : List (List Char)) :
    pieces.flatMap ('/' :: ·) = ['/'].intercalate ([] :: pieces) := by
  induction pieces with
  | nil => rfl
  | cons piece rest ih =>
    rw [List.flatMap_cons, ih, List.intercalate_cons_cons, List.nil_append, List.singleton_append,
      List.cons_append]
    cases rest with
    | nil => simp
    | cons next rest => simp

/-- What stands after the path of an address starts where a path ends. -/
theorem exists_tail (u : Url) : ∃ tail, u.render.toList =
      u.scheme.toList ++ ':' :: (u.authority.toList ++ (u.pathText.toList ++ tail)) ∧
    tail.takeWhile (fun c => c ≠ '?' && c ≠ '#') = [] := by
  unfold render
  cases u.query with
  | none =>
    cases u.fragment with
    | none => exact ⟨[], by simp [String.toList_append], rfl⟩
    | some fragment => exact ⟨'#' :: fragment.toList, by simp [String.toList_append], rfl⟩
  | some query =>
    cases u.fragment with
    | none => exact ⟨'?' :: query.toList, by simp [String.toList_append], rfl⟩
    | some fragment =>
      exact ⟨'?' :: (query.toList ++ '#' :: fragment.toList), by simp [String.toList_append], rfl⟩

namespace Sited

theorem undivided_credentials (h : Sited u parts) : Undivided u.credentials.toList := by
  unfold credentials
  split
  · exact .nil
  · rw [String.toList_append, String.toList_append]
    refine (h.username.append ?_).append (by decide)
    split
    · exact .nil
    · rw [String.toList_append]
      exact Undivided.append (by decide) h.password

/-- What stands before the path is two slashes and a text in which no part ends. -/
theorem exists_authority (h : Sited u parts) :
    ∃ site, u.authority.toList = '/' :: '/' :: site ∧ Undivided site := by
  obtain ⟨host, hhost, hundivided⟩ := h.host
  have before := h.undivided_credentials.append hundivided
  cases hport : u.port with
  | none => exact ⟨u.credentials.toList ++ host.toList, by simp [authority, hhost, hport], before⟩
  | some port =>
    refine ⟨u.credentials.toList ++ host.toList ++ (":" ++ toString port).toList,
      by simp [authority, hhost, hport], ?_⟩
    rw [String.toList_append]
    exact before.append (Undivided.append (by decide) (undivided_toString port))

/-- A path is written as its segments, each after a slash. -/
theorem toList_pathText (h : Sited u parts) :
    u.pathText.toList = (parts.map String.toList).flatMap ('/' :: ·) := by
  rw [pathText, h.path, String.toList_join, List.flatMap_map, List.flatMap_map]
  refine List.flatMap_congr fun part _ => ?_
  rw [String.toList_append]
  rfl

/-- **The path that is read off the text is the path that was written.** -/
theorem pathIn_render (h : Sited u parts) (hne : parts ≠ []) :
    pathIn u.render.toList = u.pathText.toList := by
  obtain ⟨site, hauthority, hsite⟩ := h.exists_authority
  obtain ⟨tail, hrender, htail⟩ := u.exists_tail
  obtain ⟨part, rest, rfl⟩ := List.exists_cons_of_ne_nil hne
  have hscheme : ∀ c ∈ u.scheme.toList, decide (c ≠ ':') = true := by
    intro c hc
    exact decide_eq_true fun heq => h.scheme (heq ▸ hc)
  have hbefore : ∀ c ∈ site, (c ≠ '/' && c ≠ '?' && c ≠ '#') = true := by
    intro c hc
    simpa [and_assoc] using hsite c hc
  have hpath : ∀ c ∈ u.pathText.toList, (c ≠ '?' && c ≠ '#') = true := by
    intro c hc
    rw [h.toList_pathText] at hc
    obtain ⟨piece, hpiece, hc⟩ := List.mem_flatMap.mp hc
    obtain ⟨part, hpart, rfl⟩ := List.mem_map.mp hpiece
    rcases List.mem_cons.mp hc with rfl | hc
    · rfl
    · simpa using (h.parts part hpart c hc).2
  -- the path starts with a slash, and there the host ends
  obtain ⟨path, hslash⟩ : ∃ path, u.pathText.toList = '/' :: path := ⟨_, h.toList_pathText⟩
  rw [pathIn, hrender, List.dropWhile_append_of_pos hscheme, hauthority]
  simp only [List.cons_append, List.dropWhile_cons, List.drop_succ_cons, List.drop_zero, ne_eq,
    not_true_eq_false, decide_false, Bool.false_eq_true, if_false]
  rw [List.dropWhile_append_of_pos hbefore, hslash, List.cons_append,
    List.dropWhile_cons_of_neg (by decide), ← List.cons_append, ← hslash,
    List.takeWhile_append_of_pos hpath, htail, List.append_nil]

/-- The segments of a path are found again in what is written. -/
theorem segmentsIn_render (h : Sited u parts) (hne : parts ≠ []) : segmentsIn u.render = parts := by
  have hslash : ∀ piece ∈ [] :: parts.map String.toList, '/' ∉ piece := by
    intro piece hpiece hmem
    rcases List.mem_cons.mp hpiece with rfl | hpiece
    · cases hmem
    · obtain ⟨part, hpart, rfl⟩ := List.mem_map.mp hpiece
      exact (h.parts part hpart '/' hmem).1 rfl
  rw [segmentsIn, h.pathIn_render hne, h.toList_pathText, flatMap_slash_eq,
    List.splitOn_intercalate '/' hslash (List.cons_ne_nil _ _)]
  simp [Function.comp_def]

end Sited

/-! ## Adding segments -/

/-- The segments to which others are added. -/
def stem (parts : List String) : List String :=
  if 1 < parts.length ∧ parts.getLast? = some "" then parts.dropLast else parts

/-- The segments of a path without an empty one at its end. -/
def withoutEmptyEnd (parts : List String) : List String :=
  if parts.getLast? = some "" then parts.dropLast else parts

theorem extend_eq (hpath : u.path = .segments parts) (segments : List String) :
    u.extend segments =
      { u with path := .segments (segments.foldl (addSegment u.isSpecial) (stem parts)) } := by
  rw [extend, hpath]
  rfl

theorem append_of_ne {segment : String} (h : parts ≠ [""]) :
    append parts segment = parts ++ [segment] :=
  if_neg h

/-- The first segment that is added comes after those that are there, an empty one
    at their end apart. -/
theorem append_stem (segment : String) :
    append (stem parts) segment =
      if parts = ["", ""] then [segment] else withoutEmptyEnd parts ++ [segment] := by
  match parts with
  | [] => rfl
  | [first] =>
    by_cases h : first = ""
    · subst h
      rfl
    · simp [append, stem, withoutEmptyEnd, h]
  | first :: second :: rest =>
    have hlen : 1 < (first :: second :: rest).length := by simp
    by_cases hlast : (first :: second :: rest).getLast? = some ""
    · rw [stem, if_pos ⟨hlen, hlast⟩, withoutEmptyEnd, if_pos hlast, append]
      refine if_congr ?_ rfl rfl
      cases rest with
      | nil => simp [show second = "" by simpa using hlast]
      | cons third rest => simp
    · rw [stem, if_neg fun h => hlast h.2, withoutEmptyEnd, if_neg hlast,
        append_of_ne (by simp), if_neg]
      rintro heq
      rw [heq] at hlast
      exact hlast rfl

/-! ## What a segment is written as -/

/-- A segment as it is written, without the characters that are dropped. -/
def writtenSegment (special : Bool) (segment : String) : List Char :=
  encodeWith (inSegment special) (segment.toList.filter fun c => !isDropped c)

theorem undivided_writtenSegment (segment : String) :
    Undivided (writtenSegment special segment) := by
  refine .encodeWith fun c _ hset => ⟨?_, ?_, ?_⟩ <;> (rintro rfl; cases special <;> cases hset)

/-- What is added is read back, but for the characters that are dropped. -/
theorem decoded?_writtenSegment (segment : String) :
    decoded? (writtenSegment special segment) =
      some (.ofList (segment.toList.filter fun c => !isDropped c)) := by
  have hset : inSegment special '%' := by cases special <;> rfl
  have hdecoded := decoded?_encodeWith hset (.ofList (segment.toList.filter fun c => !isDropped c))
  rwa [String.toList_ofList] at hdecoded

theorem undivided_append {segment : String} (h : ∀ part ∈ parts, Undivided part.toList)
    (h' : Undivided segment.toList) : ∀ part ∈ append parts segment, Undivided part.toList := by
  intro part hpart
  unfold append at hpart
  split at hpart
  · rw [List.mem_singleton.mp hpart]
    exact h'
  · rcases List.mem_append.mp hpart with hbefore | hlast
    · exact h part hbefore
    · rw [List.mem_singleton.mp hlast]
      exact h'

/-- What adding a segment comes to. -/
theorem addSegment_eq (parts : List String) (segment : String) :
    addSegment special parts segment =
      if segment = "." ∨ segment = ".." then parts
      else if .ofList (writtenSegment special segment) = "." then append parts ""
      else if .ofList (writtenSegment special segment) = ".." then parts.dropLast ++ [""]
      else append parts (.ofList (writtenSegment special segment)) :=
  rfl

theorem undivided_addSegment {segment : String} (h : ∀ part ∈ parts, Undivided part.toList) :
    ∀ part ∈ addSegment special parts segment, Undivided part.toList := by
  rw [addSegment_eq]
  split
  · exact h
  · split
    · exact undivided_append h .nil
    · split
      · intro part hpart
        rcases List.mem_append.mp hpart with hbefore | hlast
        · exact h part (List.dropLast_subset _ hbefore)
        · rw [List.mem_singleton.mp hlast]
          exact .nil
      · refine undivided_append h ?_
        rw [String.toList_ofList]
        exact undivided_writtenSegment segment

theorem undivided_stem (h : ∀ part ∈ parts, Undivided part.toList) :
    ∀ part ∈ stem parts, Undivided part.toList := by
  intro part hpart
  unfold stem at hpart
  split at hpart
  · exact h part (List.dropLast_subset _ hpart)
  · exact h part hpart

theorem undivided_foldl_addSegment (h : ∀ part ∈ parts, Undivided part.toList)
    (segments : List String) :
    ∀ part ∈ segments.foldl (addSegment special) parts, Undivided part.toList :=
  List.foldlRecOn (motive := fun parts : List String => ∀ part ∈ parts, Undivided part.toList)
    segments _ h
    fun _ hparts _ _ => undivided_addSegment hparts

namespace Sited

/-- Segments can be added to any address with a host. -/
theorem extend (h : Sited u parts) (segments : List String) :
    Sited (u.extend segments) (segments.foldl (addSegment u.isSpecial) (stem parts)) := by
  rw [extend_eq h.path]
  exact ⟨h.scheme, h.host, h.username, h.password, rfl,
    undivided_foldl_addSegment (undivided_stem h.parts) segments⟩

theorem addPair (h : Sited u parts) (name value : String) : Sited (u.addPair name value) parts :=
  ⟨h.scheme, h.host, h.username, h.password, h.path, h.parts⟩

end Sited

end Roster.Url
