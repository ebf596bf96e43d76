import Mathlib.Data.List.Infix
import Mathlib.Tactic.Linarith
import Mathlib.Tactic.LinearCombination
import Mathlib.Tactic.Zify
import Roster.Query.Target

/-!
# Filling templates in

A template is filled in twice, first with the machine and then with the service. To a reader it is
filled in once: it consists of pieces, each of them a character or a placeholder (`pieces`), and
every placeholder stands for its own text (`filled`). The two agree unless the machine's address
completes a `{path}` that is no piece of the template, and then they never do, but for the service
that is itself called `{path}` (`replaceFrom_fill_iff`).

What an occurrence too many does is seen by counting. Each replacement changes the length of the
text by the same amount, and where the service's name is as long as the placeholder, it changes the
same number of characters. So of one text and one result it can be told how often something was
replaced (`Replaced.count_unique`).
-/

namespace Roster.Target

open scoped List

variable {pattern replacement machine path rest text : List Char} {c : Char}

/-! ## Texts with occurrences of patterns -/

/-- A text is read occurrence by occurrence, and character by character where there is none. -/
theorem text_induction (patterns : List (List Char)) (hpatterns : [] ∉ patterns)
    {motive : List Char → Prop} (nil : motive [])
    (occurrence : ∀ pattern ∈ patterns, ∀ rest, motive rest → motive (pattern ++ rest))
    (character : ∀ c rest, (∀ pattern ∈ patterns, ¬ pattern <+: c :: rest) → motive rest →
      motive (c :: rest))
    (text : List Char) : motive text := by
  induction hlength : text.length using Nat.strongRecOn generalizing text with
  | _ n ih =>
    subst hlength
    by_cases hprefix : ∃ pattern ∈ patterns, pattern <+: text
    · obtain ⟨pattern, hpattern, rest, rfl⟩ := hprefix
      refine occurrence pattern hpattern rest (ih _ ?_ rest rfl)
      have hpos := List.length_pos_of_ne_nil (ne_of_mem_of_not_mem hpattern hpatterns)
      rw [List.length_append]
      exact Nat.lt_add_of_pos_left hpos
    · push Not at hprefix
      cases text with
      | nil => exact nil
      | cons c rest => exact character c rest hprefix (ih _ (Nat.lt_succ_self _) rest rfl)

theorem replaceFrom_skip (skipped rest : List Char) :
    replaceFrom pattern replacement skipped.length (skipped ++ rest) =
      replaceFrom pattern replacement 0 rest := by
  induction skipped with
  | nil => rfl
  | cons c skipped ih => exact ih

/-- An occurrence at the beginning is replaced. -/
theorem replaceFrom_append (hpattern : pattern ≠ []) (rest : List Char) :
    replaceFrom pattern replacement 0 (pattern ++ rest) =
      replacement ++ replaceFrom pattern replacement 0 rest := by
  obtain ⟨c, tail, rfl⟩ := List.exists_cons_of_ne_nil hpattern
  have hprefix : (c :: tail).isPrefixOf (c :: (tail ++ rest)) :=
    List.isPrefixOf_iff_prefix.mpr (List.prefix_append (c :: tail) rest)
  rw [List.cons_append, replaceFrom, if_pos hprefix]
  exact congrArg (replacement ++ ·) (replaceFrom_skip tail rest)

theorem replaceFrom_cons (h : ¬ pattern <+: c :: rest) :
    replaceFrom pattern replacement 0 (c :: rest) =
      c :: replaceFrom pattern replacement 0 rest := by
  rw [replaceFrom, if_neg (mt List.isPrefixOf_iff_prefix.mp h)]

/-- Replacing a pattern by itself changes nothing. -/
theorem replaceFrom_self (hpattern : pattern ≠ []) (text : List Char) :
    replaceFrom pattern pattern 0 text = text := by
  induction text using text_induction [pattern] (mt List.mem_singleton.mp hpattern.symm) with
  | nil => rfl
  | occurrence p hp rest ih =>
    rw [List.mem_singleton.mp hp, replaceFrom_append hpattern, ih]
  | character c rest h ih => rw [replaceFrom_cons (h pattern (List.mem_singleton_self _)), ih]

/-! ## The pieces of a template -/

/-- The mark in a template for the address of a target. -/
def machineMark : List Char := "\x7bmachine\x7d".toList

/-- The mark in a template for the name of a service. -/
def pathMark : List Char := "\x7bpath\x7d".toList

theorem machineMark_eq : machineMark = ['{', 'm', 'a', 'c', 'h', 'i', 'n', 'e', '}'] := rfl

theorem pathMark_eq : pathMark = ['{', 'p', 'a', 't', 'h', '}'] := rfl

theorem machineMark_ne_nil : machineMark ≠ [] := by decide

theorem pathMark_ne_nil : pathMark ≠ [] := by decide

/-- What stands in a template: a character, or a placeholder. -/
inductive Piece where
  | character (c : Char)
  | machine
  | path
  deriving DecidableEq, Repr

variable {ps : List Piece}

/-- The pieces of a text, from left to right, leaving out the first `skip` characters as they belong
    to a placeholder that has been read. -/
def piecesFrom : ℕ → List Char → List Piece
  | _, [] => []
  | 0, c :: rest =>
    if machineMark.isPrefixOf (c :: rest) then .machine :: piecesFrom (machineMark.length - 1) rest
    else if pathMark.isPrefixOf (c :: rest) then .path :: piecesFrom (pathMark.length - 1) rest
    else .character c :: piecesFrom 0 rest
  | skip + 1, _ :: rest => piecesFrom skip rest

/-- A template as marks and characters beside them. -/
def pieces (template : String) : List Piece :=
  piecesFrom 0 template.toList

/-- What a piece stands for. -/
def Piece.content (machine path : List Char) : Piece → List Char
  | .character c => [c]
  | .machine => machine
  | .path => path

/-- The text of pieces whose marks are filled all at once. -/
def fill (machine path : List Char) (ps : List Piece) : List Char :=
  ps.flatMap (Piece.content machine path)

/-- A template with its placeholders filled in at once. What is filled in is not read again. -/
def filled (machine path template : String) : String :=
  .ofList (fill machine.toList path.toList (pieces template))

/-- Of the pieces only `{path}` depends on the service. -/
theorem Piece.content_of_ne {p : Piece} (h : p ≠ .path) (machine path path' : List Char) :
    p.content machine path = p.content machine path' := by
  cases p with
  | character c => rfl
  | machine => rfl
  | path => exact absurd rfl h

theorem fill_cons (machine path : List Char) (p : Piece) (ps : List Piece) :
    fill machine path (p :: ps) = p.content machine path ++ fill machine path ps :=
  List.flatMap_cons

theorem piecesFrom_machine (rest : List Char) :
    piecesFrom 0 (machineMark ++ rest) = .machine :: piecesFrom 0 rest := by
  simp [machineMark_eq, piecesFrom]

theorem piecesFrom_path (rest : List Char) :
    piecesFrom 0 (pathMark ++ rest) = .path :: piecesFrom 0 rest := by
  simp [machineMark_eq, pathMark_eq, piecesFrom]

theorem piecesFrom_character (hmachine : ¬ machineMark <+: c :: rest)
    (hpath : ¬ pathMark <+: c :: rest) :
    piecesFrom 0 (c :: rest) = .character c :: piecesFrom 0 rest := by
  rw [piecesFrom, if_neg (mt List.isPrefixOf_iff_prefix.mp hmachine),
    if_neg (mt List.isPrefixOf_iff_prefix.mp hpath)]

/-- No `{machine}` begins within a `{path}`. -/
theorem replaceFrom_machineMark_append_pathMark (machine rest : List Char) :
    replaceFrom machineMark machine 0 (pathMark ++ rest) =
      pathMark ++ replaceFrom machineMark machine 0 rest := by
  simp [machineMark_eq, pathMark_eq, replaceFrom]

/-- The first filling fills in the machine and leaves the rest as it is. -/
theorem replaceFrom_machineMark (machine text : List Char) :
    replaceFrom machineMark machine 0 text = fill machine pathMark (piecesFrom 0 text) := by
  induction text using text_induction [machineMark, pathMark] (by decide) with
  | nil => rfl
  | occurrence p hp rest ih =>
    rcases List.mem_pair.mp hp with rfl | rfl
    · rw [replaceFrom_append machineMark_ne_nil, piecesFrom_machine, fill_cons, ih]
      rfl
    · rw [replaceFrom_machineMark_append_pathMark, piecesFrom_path, fill_cons, ih]
      rfl
  | character c rest h ih =>
    have hmachine := h machineMark (by simp)
    rw [replaceFrom_cons hmachine, piecesFrom_character hmachine (h pathMark (by simp)),
      fill_cons, ih]
    rfl

/-! ## Occurrences of `{path}` -/

/-- The number of places of a text at which a `{path}` begins. -/
def occurrences (text : List Char) : ℕ :=
  text.tails.countP fun rest => pathMark.isPrefixOf rest

theorem occurrences_nil : occurrences [] = 0 := by decide

theorem occurrences_cons_of_begins (h : pathMark <+: c :: rest) :
    occurrences (c :: rest) = occurrences rest + 1 := by
  rw [occurrences, List.tails_cons, List.countP_cons_of_pos (List.isPrefixOf_iff_prefix.mpr h)]
  rfl

theorem occurrences_cons (h : ¬ pathMark <+: c :: rest) :
    occurrences (c :: rest) = occurrences rest := by
  rw [occurrences, List.tails_cons, List.countP_cons_of_neg (mt List.isPrefixOf_iff_prefix.mp h)]
  rfl

/-- No `{path}` begins within another. -/
theorem occurrences_append_pathMark (rest : List Char) :
    occurrences (pathMark ++ rest) = occurrences rest + 1 := by
  simp [occurrences, pathMark_eq]

/-- The number of places in which two texts differ. -/
def mismatches (a b : List Char) : ℕ :=
  (a.zip b).countP fun p => p.1 ≠ p.2

theorem mismatches_append {a b : List Char} (h : a.length = b.length) (a' b' : List Char) :
    mismatches (a ++ a') (b ++ b') = mismatches a b + mismatches a' b' := by
  rw [mismatches, List.zip_append h, List.countP_append]
  rfl

theorem mismatches_cons_self (c : Char) (a b : List Char) :
    mismatches (c :: a) (c :: b) = mismatches a b := by
  simp [mismatches]

theorem eq_of_mismatches_eq_zero {a b : List Char} (hlength : a.length = b.length)
    (h : mismatches a b = 0) : a = b := by
  induction a generalizing b with
  | nil => exact (List.length_eq_zero_iff.mp hlength.symm).symm
  | cons c a ih =>
    cases b with
    | nil => cases hlength
    | cons d b =>
      simp only [mismatches, List.zip_cons_cons, List.countP_cons, Nat.add_eq_zero_iff,
        ite_eq_right_iff] at h
      have hhead : c = d := by simpa using h.2
      rw [hhead, ih (Nat.succ_inj.mp hlength) h.1]

/-- One text is another with some `{path}`, this many of them, replaced. -/
inductive Replaced (path : List Char) : ℕ → List Char → List Char → Prop
  | nil : Replaced path 0 [] []
  | character {n text result} (c : Char) (h : Replaced path n text result) :
    Replaced path n (c :: text) (c :: result)
  | occurrence {n text result} (h : Replaced path n text result) :
    Replaced path (n + 1) (pathMark ++ text) (path ++ result)

namespace Replaced

variable {m n : ℕ} {result : List Char}

theorem append (h : Replaced path n text result) (kept : List Char) :
    Replaced path n (kept ++ text) (kept ++ result) := by
  induction kept with
  | nil => exact h
  | cons c kept ih => exact ih.character c

theorem length_eq (h : Replaced path n text result) :
    result.length + n * pathMark.length = text.length + n * path.length := by
  induction h with
  | nil => rw [Nat.zero_mul, Nat.zero_mul]
  | character c h ih =>
    rw [List.length_cons, List.length_cons]
    linarith
  | occurrence h ih =>
    rw [List.length_append, List.length_append]
    linarith

theorem mismatches_eq (hlength : pathMark.length = path.length) (h : Replaced path n text result) :
    mismatches text result = n * mismatches pathMark path := by
  induction h with
  | nil => exact (Nat.zero_mul _).symm
  | character c h ih => rw [mismatches_cons_self, ih]
  | occurrence h ih => rw [mismatches_append hlength, ih, Nat.succ_mul, Nat.add_comm]

/-- Replacements of one text with one result are equally many, unless they change nothing. -/
theorem count_unique (hpath : path ≠ pathMark) (hm : Replaced path m text result)
    (hn : Replaced path n text result) :
    m = n := by
  by_cases hlength : pathMark.length = path.length
  · have hpos : 0 < mismatches pathMark path :=
      Nat.pos_of_ne_zero fun hzero => hpath (eq_of_mismatches_eq_zero hlength hzero).symm
    exact Nat.eq_of_mul_eq_mul_right hpos
      ((hm.mismatches_eq hlength).symm.trans (hn.mismatches_eq hlength))
  · have hm := hm.length_eq
    have hn := hn.length_eq
    zify at hm hn hlength ⊢
    exact mul_right_cancel₀ (sub_ne_zero.mpr hlength) (by linear_combination hm - hn)

end Replaced

/-- Every occurrence is replaced. -/
theorem replaced_replaceFrom (path text : List Char) :
    Replaced path (occurrences text) text (replaceFrom pathMark path 0 text) := by
  induction text using text_induction [pathMark] (by decide) with
  | nil => exact .nil
  | occurrence p hp rest ih =>
    rw [List.mem_singleton.mp hp, replaceFrom_append pathMark_ne_nil, occurrences_append_pathMark]
    exact ih.occurrence
  | character c rest h ih =>
    have hpath := h pathMark (List.mem_singleton_self _)
    rw [replaceFrom_cons hpath, occurrences_cons hpath]
    exact ih.character c

/-- Filling the marks of the path with it replaces as many pieces as there are. -/
theorem replaced_fill (machine path : List Char) (ps : List Piece) :
    Replaced path (ps.count .path) (fill machine pathMark ps) (fill machine path ps) := by
  induction ps with
  | nil => exact .nil
  | cons p ps ih =>
    rw [fill_cons, fill_cons]
    by_cases hp : p = .path
    · rw [hp, List.count_cons_self]
      exact ih.occurrence
    · rw [List.count_cons_of_ne hp, Piece.content_of_ne hp machine path pathMark]
      exact ih.append _

/-! ## The second filling -/

theorem occurrences_append_le (kept text : List Char) :
    occurrences text ≤ occurrences (kept ++ text) := by
  induction kept with
  | nil => exact le_rfl
  | cons c kept ih =>
    by_cases h : pathMark <+: c :: (kept ++ text)
    · exact ih.trans ((occurrences_cons_of_begins h).symm ▸ Nat.le_succ _)
    · exact ih.trans_eq (occurrences_cons h).symm

/-- Every piece for the path is an occurrence of its mark. -/
theorem count_le_occurrences (machine : List Char) (ps : List Piece) :
    ps.count .path ≤ occurrences (fill machine pathMark ps) := by
  induction ps with
  | nil => exact Nat.zero_le _
  | cons p ps ih =>
    rw [fill_cons]
    by_cases hp : p = .path
    · rw [hp, List.count_cons_self]
      exact (Nat.succ_le_succ ih).trans_eq (occurrences_append_pathMark _).symm
    · rw [List.count_cons_of_ne hp]
      exact ih.trans (occurrences_append_le _ _)

/-- What brings no occurrence with it stays as it is. -/
theorem replaceFrom_append_of_occurrences_le {kept : List Char}
    (h : occurrences (kept ++ text) ≤ occurrences text) :
    replaceFrom pathMark path 0 (kept ++ text) = kept ++ replaceFrom pathMark path 0 text := by
  induction kept with
  | nil => rfl
  | cons c kept ih =>
    have hle := occurrences_append_le kept text
    by_cases hprefix : pathMark <+: c :: (kept ++ text)
    · rw [List.cons_append, occurrences_cons_of_begins hprefix] at h
      exact absurd (hle.trans_lt h) (lt_irrefl _)
    · rw [List.cons_append, occurrences_cons hprefix] at h
      rw [List.cons_append, replaceFrom_cons hprefix, ih h]
      rfl

/-- If there are no more occurrences than pieces, the two replacements fill the pieces. -/
theorem replaceFrom_fill (h : occurrences (fill machine pathMark ps) ≤ ps.count .path) :
    replaceFrom pathMark path 0 (fill machine pathMark ps) = fill machine path ps := by
  induction ps with
  | nil => rfl
  | cons p ps ih =>
    rw [fill_cons] at h ⊢
    rw [fill_cons]
    by_cases hp : p = .path
    · rw [hp, List.count_cons_self] at h
      have hrest : occurrences (fill machine pathMark ps) ≤ ps.count .path :=
        Nat.le_of_succ_le_succ ((occurrences_append_pathMark _).symm.trans_le h)
      rw [hp]
      exact (replaceFrom_append pathMark_ne_nil _).trans (congrArg (path ++ ·) (ih hrest))
    · rw [List.count_cons_of_ne hp] at h
      have hrest := (occurrences_append_le _ _).trans h
      rw [replaceFrom_append_of_occurrences_le (h.trans (count_le_occurrences machine ps)),
        ih hrest, Piece.content_of_ne hp machine path pathMark]

/-- **The service is filled in as the pieces say if no `{path}` has come with the machine, and else
    only if the service is itself called `{path}`.** -/
theorem replaceFrom_fill_iff (machine path : List Char) (ps : List Piece) :
    replaceFrom pathMark path 0 (fill machine pathMark ps) = fill machine path ps ↔
      path = pathMark ∨ occurrences (fill machine pathMark ps) = ps.count .path := by
  constructor
  · intro heq
    by_cases hpath : path = pathMark
    · exact .inl hpath
    · have hreplaced := replaced_replaceFrom path (fill machine pathMark ps)
      rw [heq] at hreplaced
      exact .inr (hreplaced.count_unique hpath (replaced_fill machine path ps))
  · rintro (rfl | hcount)
    · exact replaceFrom_self pathMark_ne_nil _
    · exact replaceFrom_fill hcount.le

/-! ## Addresses without braces -/

theorem occurrences_append_of_not_mem {kept : List Char} (h : '{' ∉ kept) (text : List Char) :
    occurrences (kept ++ text) = occurrences text := by
  induction kept with
  | nil => rfl
  | cons c kept ih =>
    rw [List.mem_cons, not_or] at h
    have hprefix : ¬ pathMark <+: c :: (kept ++ text) :=
      fun hprefix => h.1 (List.cons_prefix_cons.mp hprefix).1
    exact (occurrences_cons hprefix).trans (ih h.2)

/-- If a brace opens nowhere but in the placeholders, no `{path}` comes with the machine. -/
theorem occurrences_fill (hmachine : '{' ∉ machine) (hps : .character '{' ∉ ps) :
    occurrences (fill machine pathMark ps) = ps.count .path := by
  induction ps with
  | nil => exact occurrences_nil
  | cons p ps ih =>
    rw [List.mem_cons, not_or] at hps
    rw [fill_cons]
    cases p with
    | character c =>
      have hc : '{' ∉ [c] := fun hc => hps.1 (congrArg Piece.character (List.mem_singleton.mp hc))
      exact (occurrences_append_of_not_mem hc _).trans (ih hps.2)
    | machine => exact (occurrences_append_of_not_mem hmachine _).trans (ih hps.2)
    | path =>
      rw [List.count_cons_self]
      exact (occurrences_append_pathMark _).trans (congrArg (· + 1) (ih hps.2))

/-! ## Targets -/

/-- The machine completes no `{path}` that is not a placeholder of the template. -/
def CompletesNone (machine template : String) : Prop :=
  occurrences (fill machine.toList pathMark (pieces template)) = (pieces template).count .path

instance (machine template : String) : Decidable (CompletesNone machine template) :=
  inferInstanceAs (Decidable (_ = _))

theorem expand_eq (machine path template : String) :
    expand machine path template =
      .ofList (replaceFrom pathMark path.toList 0
        (fill machine.toList pathMark (pieces template))) := by
  rw [pieces, ← replaceFrom_machineMark]
  rfl

theorem expand_eq_filled_iff (machine path template : String) :
    expand machine path template = filled machine path template ↔
      path = "\x7bpath\x7d" ∨ CompletesNone machine template := by
  rw [expand_eq, filled, String.ofList_inj, replaceFrom_fill_iff]
  exact or_congr_left String.toList_inj

-- An address can complete a placeholder without being one.
example : expand "at" "ndt" "\x7bp\x7bmachine\x7dh\x7d" = "ndt" := by decide

/-- An address without an opening brace is filled in well wherever the template is well formed. -/
theorem expand_eq_filled {machine template : String} (hmachine : '{' ∉ machine.toList)
    (htemplate : .character '{' ∉ pieces template) (path : String) :
    expand machine path template = filled machine path template :=
  (expand_eq_filled_iff machine path template).mpr (.inr (occurrences_fill hmachine htemplate))

theorem templatesOf_cases (services : List (String × Templates)) (service : String) :
    (services.lookup service = some (templatesOf services service) ∧
      templatesOf services service ≠ []) ∨
      (services.lookup service = none ∨ services.lookup service = some []) ∧
        templatesOf services service = [("default", "https://\x7bmachine\x7d/\x7bpath\x7d")] := by
  unfold templatesOf
  split
  · next t ts h => exact .inl ⟨h, List.cons_ne_nil t ts⟩
  · next h =>
    refine .inr ⟨?_, rfl⟩
    cases hfound : services.lookup service with
    | none => exact .inl rfl
    | some templates =>
      cases templates with
      | nil => exact .inr rfl
      | cons t ts => exact absurd hfound (h t ts)

/-- **A target has the machine of its entry, and for each template of the service, or for the
    standard one, an address in the place that the resource's name has among the others. The address
    is the template with its placeholders filled in at once exactly if the machine completes no
    further `{path}` or the service is itself called so.** -/
theorem ofEntry_filled_iff (services : List (String × Templates)) (e : Entry) :
    let target := ofEntry services e
    target.machine = e.key.target ∧
      target.urls.Pairwise (fun a b => a.1 ≤ b.1) ∧
      ∃ templates,
        (services.lookup e.key.path = some templates ∧ templates ≠ [] ∨
          (services.lookup e.key.path = none ∨ services.lookup e.key.path = some []) ∧
            templates = [("default", "https://\x7bmachine\x7d/\x7bpath\x7d")]) ∧
        target.urls ~ templates.map (fun t => (t.1, expand e.key.target e.key.path t.2)) ∧
        ∀ template,
          expand e.key.target e.key.path template = filled e.key.target e.key.path template ↔
            e.key.path = "\x7bpath\x7d" ∨ CompletesNone e.key.target template := by
  refine ⟨rfl, ?_, templatesOf services e.key.path, templatesOf_cases _ _, List.mergeSort_perm _ _,
    expand_eq_filled_iff _ _⟩
  refine (List.pairwise_mergeSort ?_ ?_ _).imp of_decide_eq_true
  · simp only [decide_eq_true_iff]
    exact fun _ _ _ => String.le_trans
  · intro a b
    rw [Bool.or_eq_true, decide_eq_true_iff, decide_eq_true_iff]
    exact String.le_total _ _

/-- An entry whose target is called like a placeholder. -/
def markedEntry : Entry where
  key := { requester := "", path := "ndt", policy := "geo_options", target := "\x7bpath\x7d" }
  family := none
  format := ""
  latitude := none
  longitude := none
  metro := ""
  probability := 1.0
  requestsPerDay := 1

/-- The entry passes the checks of rows, and the address it is given leads to the service and
    not to the target. -/
theorem ofEntry_markedEntry :
    Entry.ofRow markedEntry.toRow = .ok markedEntry ∧
      ofEntry [] markedEntry =
        { machine := "\x7bpath\x7d", urls := [("default", "https://ndt/ndt")] } ∧
      filled "\x7bpath\x7d" "ndt" "https://\x7bmachine\x7d/\x7bpath\x7d" =
        "https://\x7bpath\x7d/ndt" := by
  have hurl : expand "\x7bpath\x7d" "ndt" "https://\x7bmachine\x7d/\x7bpath\x7d" =
      "https://ndt/ndt" := by decide
  refine ⟨rfl, ?_, by decide⟩
  change Target.mk _ (List.mergeSort [("default", expand _ _ _)] _) = _
  rw [List.mergeSort_singleton]
  exact congrArg (fun url => Target.mk _ [("default", url)]) hurl

end Roster.Target
