import Mathlib.Data.List.Forall2
import Mathlib.Data.Nat.Basic
import Mathlib.Order.Basic
import Roster.Analytics.Fetch

/-!
# What is fetched

The backend is asked until an answer is not one of those that pass (`Exchange.Passing`), but four
times at most. That first other answer decides alone: no answer before it is made use of, and the
ones after it are not asked for (`ask_congr`). So the result is that of one exchange (`Outcome`), or
that there was none.

Of the result it is asked that it is whole. Its rows are those of the document that was sent, one
for each item and in their order (`Tells`), and if the document says how many they are, so many.
There is no way in which some of the rows are kept. How long the backend is left alone between two
requests is not said here.
-/

namespace Roster.Analytics

variable {exchange other : ℕ → Exchange} {made left i : ℕ} {e : Exchange} {body : ByteArray}
  {rows : List Row} {total : Option ℕ} {result : Except FetchError (List Row)}

/-! ## Documents -/

/-- How many rows a document announces. Null is as good as nothing. -/
inductive Announces : Option Json → Option ℕ → Prop where
  | absent : Announces none none
  | null : Announces (some .null) none
  | told {field : Json} {n : ℕ} (h : field.natBelow? 64 = some n) : Announces (some field) (some n)

/-- The body of an answer is a document of these rows, in the order of its items, and of that many
    as it announces. A document that is an array has to announce something, which may be null. -/
def Tells (body : ByteArray) (rows : List Row) (total : Option ℕ) : Prop :=
  ∃ (document : Json) (items : List Json) (announced : Option Json),
    Json.read? (Json.symbols body) = some document ∧
    document.record? ["rows", "total_rows"] = some [some (.array items), announced] ∧
    ((∃ elements, document = .array elements) → announced ≠ none) ∧
    List.Forall₂ (fun item row => Row.ofTree? item = some row) items rows ∧
    Announces announced total

theorem mapM_eq_some_iff {α β : Type} {f : α → Option β} {l : List α} {l' : List β} :
    l.mapM f = some l' ↔ List.Forall₂ (fun a b => f a = some b) l l' := by
  induction l generalizing l' with
  | nil => simp [eq_comm]
  | cons a rest ih =>
    rw [List.mapM_cons]
    simp only [Option.bind_eq_bind, Option.bind_eq_some_iff, Option.pure_def, Option.some.injEq, ih]
    constructor
    · rintro ⟨b, hb, bs, hbs, rfl⟩
      exact .cons hb hbs
    · intro h
      cases h with
      | cons hb hbs => exact ⟨_, hb, _, hbs, rfl⟩

theorem isNull_iff {field : Json} : field.isNull ↔ field = .null := by
  cases field with
  | scalar s => simp [Tree.isNull, ReadScalar.isNull, Json.null]
  | array elements => exact iff_of_false nofun nofun
  | object members => exact iff_of_false nofun nofun

/-- An optional count is read as what its field announces. -/
theorem optional_eq_some_iff {field : Option Json} :
    Tree.optional (Tree.natBelow? 64) field = some total ↔ Announces field total := by
  constructor
  · intro h
    cases field with
    | none =>
      cases h
      exact .absent
    | some field =>
      rw [Tree.optional] at h
      split at h
      · next hnull =>
        cases h
        rw [isNull_iff.mp hnull]
        exact .null
      · obtain ⟨n, hn, rfl⟩ := Option.map_eq_some_iff.mp h
        exact .told hn
  · intro h
    cases h with
    | absent => rfl
    | null => rfl
    | @told field n hn =>
      -- null is no number
      have hnull : ¬ field.isNull := by
        intro hnull
        rw [isNull_iff.mp hnull] at hn
        cases hn
      rw [Tree.optional, if_neg hnull, hn]
      rfl

theorem required_eq_some_iff {field : Option Json} :
    Tree.required (Tree.list? Row.ofTree?) field = some rows ↔
      ∃ items, field = some (.array items) ∧
        List.Forall₂ (fun item row => Row.ofTree? item = some row) items rows := by
  simp only [← mapM_eq_some_iff]
  constructor
  · intro h
    match field with
    | some (.array items) => exact ⟨items, rfl, h⟩
  · rintro ⟨items, rfl, h⟩
    exact h

/-- What is read from the body of an answer. -/
theorem tells_iff :
    (Json.read? (Json.symbols body)).bind Content.ofTree? = some ⟨rows, total⟩ ↔
      Tells body rows total := by
  constructor
  · intro h
    obtain ⟨document, hdocument, h⟩ := Option.bind_eq_some_iff.mp h
    unfold Content.ofTree? at h
    obtain ⟨fields, hfields, h⟩ := Option.bind_eq_some_iff.mp h
    split at h
    · next field announced =>
      split at h
      · cases h
      · next hboth =>
        simp only [Option.bind_eq_bind, Option.bind_eq_some_iff, Option.pure_def,
          Option.some.injEq] at h
        obtain ⟨rows', hrows, total', htotal, heq⟩ := h
        cases heq
        obtain ⟨items, rfl, hitems⟩ := required_eq_some_iff.mp hrows
        refine ⟨document, items, announced, hdocument, hfields, ?_, hitems,
          optional_eq_some_iff.mp htotal⟩
        rintro ⟨elements, rfl⟩ rfl
        exact hboth elements rfl
    · cases h
  · rintro ⟨document, items, announced, hdocument, hfields, hboth, hitems, htotal⟩
    rw [hdocument, Option.bind_some, Content.ofTree?, hfields]
    simp only [Option.bind_eq_bind, Option.bind_some]
    split
    · next elements heq =>
      cases heq
      exact absurd rfl (hboth ⟨elements, rfl⟩)
    · rw [required_eq_some_iff.mpr ⟨items, rfl, hitems⟩, optional_eq_some_iff.mpr htotal]
      rfl

/-! ## One exchange -/

/-- An answer that says that the backend is busy or out of order. -/
def Exchange.Passing (e : Exchange) : Prop :=
  ∃ status body, e = .answered status body ∧ status ∈ [429, 500, 502, 503, 504]

/-- The status of an answer that holds what was asked for. -/
def Success (status : ℕ) : Prop :=
  200 ≤ status ∧ status < 300

/-- What comes of an exchange that is not passing. -/
inductive Outcome : Exchange → Except FetchError (List Row) → Prop where
  | lost (reason : String) : Outcome (.lost reason) (.error (.transport reason))
  | unexpected {status : ℕ} {body : ByteArray} (refused : ¬ Success status)
      (decisive : status ∉ [429, 500, 502, 503, 504]) :
      Outcome (.answered status body) (.error (.unexpectedStatus status))
  | undecodable {status : ℕ} {body : ByteArray} (success : Success status)
      (unread : ∀ rows total, ¬ Tells body rows total) :
      Outcome (.answered status body) (.error .undecodable)
  | whole {status : ℕ} {body : ByteArray} {rows : List Row} {total : Option ℕ}
      (success : Success status) (tells : Tells body rows total)
      (complete : ∀ n, total = some n → n = rows.length) :
      Outcome (.answered status body) (.ok rows)
  | incomplete {status : ℕ} {body : ByteArray} {rows : List Row} {n : ℕ} (success : Success status)
      (tells : Tells body rows (some n)) (short : n ≠ rows.length) :
      Outcome (.answered status body) (.error (.incomplete n rows.length))

theorem isSuccess_iff {status : ℕ} : Http.isSuccess status ↔ Success status := by
  simp [Http.isSuccess, Success]

theorem outcome_rowsOf {status : ℕ} (h : Success status) :
    Outcome (.answered status body) (rowsOf body) := by
  unfold rowsOf
  split
  · next hnone =>
    refine .undecodable h fun rows total htells => ?_
    rw [tells_iff.mpr htells] at hnone
    cases hnone
  · next rows hsome => exact .whole h (tells_iff.mp hsome) nofun
  · next rows total hsome =>
    have htells := tells_iff.mp hsome
    split
    · next hcomplete =>
      refine .whole h htells fun n hn => ?_
      cases hn
      exact hcomplete
    · next hshort => exact .incomplete h htells hshort

/-- An exchange decides nothing if and only if it is a passing one. -/
theorem decide?_eq_none_iff : decide? e = none ↔ e.Passing := by
  cases e with
  | lost reason => exact iff_of_false nofun fun ⟨_, _, h, _⟩ => nomatch h
  | answered status body =>
    simp only [decide?, Exchange.Passing, Exchange.answered.injEq]
    split
    · next hsuccess =>
      refine iff_of_false nofun ?_
      rintro ⟨_, _, ⟨rfl, -⟩, hpassing⟩
      have hnone : ∀ status ∈ [429, 500, 502, 503, 504], ¬ Http.isSuccess status := by decide
      exact hnone status hpassing hsuccess
    · split
      · next hpassing => exact iff_of_true rfl ⟨_, _, ⟨rfl, rfl⟩, hpassing⟩
      · next hdecisive =>
        refine iff_of_false nofun ?_
        rintro ⟨_, _, ⟨rfl, -⟩, hpassing⟩
        exact hdecisive hpassing

/-- What an exchange decides is the outcome that it has. -/
theorem outcome_of_decide? (h : decide? e = some result) : Outcome e result := by
  cases e with
  | lost reason =>
    cases h
    exact .lost reason
  | answered status body =>
    rw [decide?] at h
    split at h
    · next hsuccess =>
      cases h
      exact outcome_rowsOf (isSuccess_iff.mp hsuccess)
    · next hrefused =>
      split at h
      · cases h
      · next hdecisive =>
        cases h
        exact .unexpected (mt isSuccess_iff.mpr hrefused) hdecisive

/-! ## One request after another -/

/-- The answer to this request decides: it is not passing, and all before it are. -/
def Decides (exchange : ℕ → Exchange) (i : ℕ) : Prop :=
  ¬ (exchange i).Passing ∧ ∀ j < i, (exchange j).Passing

/-- While answers pass, the next request is made. -/
theorem ask_of_passing (h : (exchange made).Passing) :
    ask exchange made (left + 1) = ask exchange (made + 1) left := by
  rw [ask, decide?_eq_none_iff.mpr h]

/-- Nothing is asked any more once something is decided. -/
theorem ask_of_decided (h : decide? (exchange made) = some result) :
    ask exchange made left = (result, made + 1) := by
  cases left with
  | zero => rw [ask, h, Option.getD_some]
  | succ left => rw [ask, h]

/-- The requests end with the first answer that is not passing. -/
theorem ask_of_decides (h : Decides exchange i) (hmade : made ≤ i) (hleft : i ≤ made + left) :
    (ask exchange made left).2 = i + 1 ∧ Outcome (exchange i) (ask exchange made left).1 := by
  obtain ⟨hdecisive, hpassing⟩ := h
  obtain ⟨result, hresult⟩ := Option.ne_none_iff_exists'.mp (mt decide?_eq_none_iff.mp hdecisive)
  suffices hask : ask exchange made left = (result, i + 1) by
    rw [hask]
    exact ⟨rfl, outcome_of_decide? hresult⟩
  induction left generalizing made with
  | zero =>
    obtain rfl : made = i := by omega
    exact ask_of_decided hresult
  | succ left ih =>
    rcases hmade.eq_or_lt with rfl | hlt
    · exact ask_of_decided hresult
    · rw [ask_of_passing (hpassing made hlt)]
      exact ih hlt (by omega)

/-- If all answers pass that may be asked for, there is nothing to decide. -/
theorem ask_of_all_passing (h : ∀ j ≤ made + left, (exchange j).Passing) :
    ask exchange made left = (.error (.retriesExceeded (made + left)), made + left + 1) := by
  induction left generalizing made with
  | zero =>
    have hpassing := decide?_eq_none_iff.mpr (h made le_rfl)
    rw [ask, hpassing, Option.getD_none]
    rfl
  | succ left ih =>
    rw [ask_of_passing (h made (by omega)), ih fun j hj => h j (by omega),
      Nat.add_right_comm made 1 left]
    rfl

theorem lt_requests (exchange : ℕ → Exchange) (made left : ℕ) :
    made < (ask exchange made left).2 := by
  induction left generalizing made with
  | zero => exact Nat.lt_succ_self made
  | succ left ih =>
    rw [ask]
    split
    · exact Nat.lt_succ_self made
    · exact (Nat.lt_succ_self made).trans (ih (made + 1))

/-- An answer that is not asked for has no part in the result. -/
theorem ask_congr (h : ∀ j < (ask exchange made left).2, other j = exchange j) :
    ask other made left = ask exchange made left := by
  induction left generalizing made with
  | zero => rw [ask, ask, h made (lt_requests exchange made 0)]
  | succ left ih =>
    have hmade := h made (lt_requests exchange made (left + 1))
    cases hdecide : decide? (exchange made) with
    | some result => rw [ask_of_decided hdecide, ask_of_decided (hmade.symm ▸ hdecide)]
    | none =>
      have hpassing := decide?_eq_none_iff.mp hdecide
      rw [ask_of_passing hpassing] at h ⊢
      rw [ask_of_passing (hmade.symm ▸ hpassing)]
      exact ih h

/-! ## All requests -/

/-- Either a request decides in time, or all answers pass that are asked for. -/
theorem decides_or_passing (exchange : ℕ → Exchange) (n : ℕ) :
    (∃ i ≤ n, Decides exchange i) ∨ ∀ j ≤ n, (exchange j).Passing := by
  induction n with
  | zero =>
    by_cases h : (exchange 0).Passing
    · exact .inr fun j hj => Nat.le_zero.mp hj ▸ h
    · exact .inl ⟨0, le_rfl, h, nofun⟩
  | succ n ih =>
    rcases ih with ⟨i, hi, h⟩ | hall
    · exact .inl ⟨i, hi.trans (Nat.le_succ n), h⟩
    by_cases h : (exchange (n + 1)).Passing
    · refine .inr fun j hj => ?_
      rcases hj.lt_or_eq with hlt | rfl
      · exact hall j (Nat.lt_succ_iff.mp hlt)
      · exact h
    · exact .inl ⟨n + 1, le_rfl, h, fun j hj => hall j (Nat.lt_succ_iff.mp hj)⟩

/-- **The first answer that is not passing decides, if it is among the first four.** Then no request
    is made after it, and the result is what comes of that answer. If it is not among them, or never
    comes, four requests are made and there is no result. What is not asked for has no part in the
    result. Rows are only ever those of a whole document. -/
theorem fetch_decided (exchange : ℕ → Exchange) :
    (∀ i, Decides exchange i →
      (i ≤ 3 → (fetch exchange).2 = i + 1 ∧ Outcome (exchange i) (fetch exchange).1) ∧
      (3 < i → fetch exchange = (.error (.retriesExceeded 3), 4))) ∧
    ((∀ i, (exchange i).Passing) → fetch exchange = (.error (.retriesExceeded 3), 4)) ∧
    (fetch exchange).2 ≤ 4 ∧
    (∀ other, (∀ j < (fetch exchange).2, other j = exchange j) → fetch other = fetch exchange) ∧
    ∀ rows, (fetch exchange).1 = .ok rows →
      ∃ i status body total, Decides exchange i ∧ exchange i = .answered status body ∧
        Success status ∧ Tells body rows total ∧ ∀ n, total = some n → n = rows.length := by
  have decided {i : ℕ} (h : Decides exchange i) (hi : i ≤ 3) :
      (fetch exchange).2 = i + 1 ∧ Outcome (exchange i) (fetch exchange).1 :=
    ask_of_decides h (Nat.zero_le i) (by simpa [maxRetries] using hi)
  have exceeded (h : ∀ j ≤ 3, (exchange j).Passing) :
      fetch exchange = (.error (.retriesExceeded 3), 4) :=
    ask_of_all_passing (by simpa [maxRetries] using h)
  refine ⟨fun i h => ⟨decided h, fun hi => exceeded fun j hj => h.2 j (hj.trans_lt hi)⟩,
    fun h => exceeded fun j _ => h j, ?bound, fun other h => ask_congr h, ?whole⟩
  case bound =>
    rcases decides_or_passing exchange 3 with ⟨i, hi, h⟩ | hpassing
    · rw [(decided h hi).1]
      exact Nat.succ_le_succ hi
    · rw [exceeded hpassing]
  case whole =>
    intro rows hrows
    rcases decides_or_passing exchange 3 with ⟨i, hi, h⟩ | hpassing
    · have houtcome := (decided h hi).2
      rw [hrows] at houtcome
      generalize hanswer : exchange i = answer at houtcome
      cases houtcome with
      | whole success tells complete => exact ⟨i, _, _, _, h, hanswer, success, tells, complete⟩
    · rw [exceeded hpassing] at hrows
      cases hrows

/-! ## A backend that is busy three times -/

/-- The last request that is made gets the rows. -/
def busyThrice : ℕ → Exchange
  | 0 => .answered 503 .empty
  | 1 => .answered 429 .empty
  | 2 => .answered 502 .empty
  | 3 => .answered 200
      ("\x7b\"rows\":[\x7b\"path\":\"ndt\",\"target_ip\":\"10.0.0.2\",\"probability\":1.0," ++
      "\"requests_per_day\":1\x7d,\x7b\"path\":\"ndt\",\"target_ip\":\"10.0.0.1\"," ++
      "\"probability\":0.5,\"requests_per_day\":2\x7d],\"total_rows\":2\x7d").toUTF8
  | _ => .lost "connection refused"

theorem decides_busyThrice : Decides busyThrice 3 := by
  constructor
  · rintro ⟨_, _, ⟨⟩, hpassing⟩
    exact absurd hpassing (by decide)
  · intro j hj
    match j, hj with
    | 0, _ => exact ⟨_, _, rfl, by decide⟩
    | 1, _ => exact ⟨_, _, rfl, by decide⟩
    | 2, _ => exact ⟨_, _, rfl, by decide⟩

theorem fetch_decided_busyThrice :
    Decides busyThrice 3 ∧ (fetch busyThrice).2 = 4 ∧ Outcome (busyThrice 3) (fetch busyThrice).1 ∧
      ∃ rows body, (fetch busyThrice).1 = .ok rows ∧
        rows.map Row.target = ["10.0.0.2", "10.0.0.1"] ∧
        busyThrice 3 = .answered 200 body ∧ ∃ total, Tells body rows total := by
  obtain ⟨hdecides, -⟩ := fetch_decided busyThrice
  obtain ⟨hmade, houtcome⟩ := (hdecides 3 decides_busyThrice).1 le_rfl
  have htargets : (fetch busyThrice).1.map (List.map Row.target) =
      .ok ["10.0.0.2", "10.0.0.1"] := by
    decide +kernel
  refine ⟨decides_busyThrice, hmade, houtcome, ?_⟩
  cases hfetch : (fetch busyThrice).1 with
  | error fault =>
    rw [hfetch] at htargets
    cases htargets
  | ok rows =>
    rw [hfetch] at htargets houtcome
    generalize hanswer : busyThrice 3 = answer at houtcome
    cases hanswer
    cases houtcome with
    | whole success tells complete => exact ⟨rows, _, rfl, Except.ok.inj htargets, rfl, _, tells⟩

end Roster.Analytics
