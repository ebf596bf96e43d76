import Mathlib.Data.List.Induction
import Mathlib.Data.List.Perm.Basic
import Roster.Proofs.Table.Snapshot

/-!
# The last row of each key

Rows are taken one by one, and what one row does is said first: an accepted row is inserted, and a
malformed one is set aside (`ofRows_concat_ok`, `ofRows_concat_error`). As an insertion replaces
whatever has the key, what a snapshot has under a key after all rows is found from the back: it is
the entry of the last accepted row with that key (`get?_ofRows`), and no other row matters to it.

So it does not matter either how rows of different keys stand among each other, nor where malformed
rows stand. What does not change are the entries and what is found under each key. The order of the
entries in the list is that of the rows, and nobody is told it.
-/

namespace Roster.Snapshot

variable {s : Snapshot} {k : Key} {e : Entry} {r : Row} {m : Entry.Malformed}
  {rows rows' : List Row}

/-- The row is accepted and has the key. -/
def accepts (k : Key) (r : Row) : Bool :=
  (Entry.ofRow r).isOk && r.key = k

/-! ## One more row -/

/-- One more row that is accepted is inserted into the snapshot of those before it. -/
theorem ofRows_concat_ok (rows : List Row) (h : Entry.ofRow r = .ok e) :
    ofRows (rows ++ [r]) = ((ofRows rows).1.insert e, (ofRows rows).2) := by
  simp [ofRows, sort, ofEntries, h, Except.toOption]

/-- One more row that is rejected is noted, and nothing else. -/
theorem ofRows_concat_error (rows : List Row) (h : Entry.ofRow r = .error m) :
    ofRows (rows ++ [r]) = ((ofRows rows).1, (ofRows rows).2 ++ [m]) := by
  simp [ofRows, sort, ofEntries, h, Except.toOption]

/-- An insertion replaces what its key had and nothing else. -/
theorem get?_insert : (s.insert e).get? k = if k = e.key then some e else s.get? k := by
  apply Option.ext
  intro e'
  split
  · next heq =>
    subst heq
    rw [get?_eq_some_iff, mem_insert_iff, Option.some.injEq]
    constructor
    · rintro ⟨rfl | ⟨-, hne⟩, hkey⟩
      · rfl
      · exact absurd hkey hne
    · rintro rfl
      exact ⟨.inl rfl, rfl⟩
  · next hne =>
    rw [get?_eq_some_iff, get?_eq_some_iff, mem_insert_iff]
    constructor
    · rintro ⟨rfl | ⟨hmem, -⟩, hkey⟩
      · exact absurd hkey.symm hne
      · exact ⟨hmem, hkey⟩
    · rintro ⟨hmem, rfl⟩
      exact ⟨.inr ⟨hmem, hne⟩, rfl⟩

/-! ## All rows -/

theorem accepts_of_ok (h : Entry.ofRow r = .ok e) : accepts k r = decide (r.key = k) := by
  simp [accepts, h, Except.isOk, Except.toBool]

theorem accepts_of_error (h : Entry.ofRow r = .error m) : accepts k r = false := by
  simp [accepts, h, Except.isOk, Except.toBool]

/-- **What is found under a key is the entry of the last accepted row that has it.** -/
theorem get?_ofRows (rows : List Row) (k : Key) :
    (ofRows rows).1.get? k = (rows.filter (accepts k)).getLast?.bind fun r =>
      (Entry.ofRow r).toOption := by
  induction rows using List.reverseRecOn with
  | nil => rfl
  | append_singleton rows r ih =>
    rw [List.filter_append, List.filter_singleton]
    cases hrow : Entry.ofRow r with
    | error m =>
      rw [ofRows_concat_error rows hrow, accepts_of_error hrow, ih]
      simp
    | ok e =>
      rw [ofRows_concat_ok rows hrow, get?_insert, accepts_of_ok hrow, Entry.key_of_ofRow hrow, ih]
      by_cases hkey : r.key = k
      · simp [hkey, hrow, Except.toOption]
      · simp [hkey, Ne.symm hkey]

theorem exists_of_accepts (h : accepts k r) : ∃ e, Entry.ofRow r = .ok e ∧ e.key = k := by
  cases hrow : Entry.ofRow r with
  | error m =>
    rw [accepts_of_error hrow] at h
    cases h
  | ok e =>
    rw [accepts_of_ok hrow, decide_eq_true_iff] at h
    exact ⟨e, rfl, (Entry.key_of_ofRow hrow).trans h⟩

/-- What a snapshot has for a key is of the last row that was accepted for it. -/
theorem get?_ofRows_eq_some_iff : (ofRows rows).1.get? k = some e ↔
    ∃ before r after, rows = before ++ r :: after ∧ Entry.ofRow r = .ok e ∧ e.key = k ∧
      ∀ later ∈ after, accepts k later = false := by
  rw [get?_ofRows, Option.bind_eq_some_iff]
  constructor
  · rintro ⟨r, hlast, hentry⟩
    obtain ⟨kept, hkept⟩ := List.getLast?_eq_some_iff.mp hlast
    obtain ⟨before, rest, rfl, -, hrest⟩ := List.filter_eq_append_iff.mp hkept
    obtain ⟨between, after, rfl, -, haccepts, hafter⟩ := List.filter_eq_cons_iff.mp hrest
    obtain ⟨e', hrow, hkey⟩ := exists_of_accepts haccepts
    rw [hrow] at hentry
    cases hentry
    refine ⟨before ++ between, r, after, (List.append_assoc _ _ _).symm, hrow, hkey,
      fun later hlater => ?_⟩
    exact Bool.eq_false_iff.mpr (List.filter_eq_nil_iff.mp hafter later hlater)
  · rintro ⟨before, r, after, rfl, hrow, hkey, hafter⟩
    have haccepts : accepts k r := by
      rw [accepts_of_ok hrow, decide_eq_true_iff, ← Entry.key_of_ofRow hrow, hkey]
    have hnone : after.filter (accepts k) = [] :=
      List.filter_eq_nil_iff.mpr fun later hlater => Bool.eq_false_iff.mp (hafter later hlater)
    refine ⟨r, ?_, by rw [hrow]; rfl⟩
    rw [List.filter_append, List.filter_cons_of_pos haccepts, hnone, List.getLast?_concat]

theorem mem_keys_iff : k ∈ s.keys ↔ (s.get? k).isSome := by
  rw [keys, List.mem_map, Option.isSome_iff_exists]
  simp only [get?_eq_some_iff]

/-- The keys of a snapshot are those for which a row was accepted. -/
theorem mem_keys_ofRows_iff : k ∈ (ofRows rows).1.keys ↔ ∃ r ∈ rows, accepts k r := by
  rw [mem_keys_iff, Option.isSome_iff_exists]
  constructor
  · rintro ⟨e, hget⟩
    obtain ⟨before, r, after, rfl, hrow, hkey, -⟩ := get?_ofRows_eq_some_iff.mp hget
    refine ⟨r, by simp, ?_⟩
    rw [accepts_of_ok hrow, decide_eq_true_iff, ← Entry.key_of_ofRow hrow, hkey]
  · rintro ⟨r, hr, haccepts⟩
    have hne : rows.filter (accepts k) ≠ [] :=
      List.ne_nil_of_mem (List.mem_filter.mpr ⟨hr, haccepts⟩)
    have hlast := List.getLast_mem hne
    obtain ⟨e, hrow, -⟩ := exists_of_accepts (List.mem_filter.mp hlast).2
    refine ⟨e, ?_⟩
    rw [get?_ofRows, List.getLast?_eq_some_getLast hne, Option.bind_some, hrow]
    rfl

/-! ## The others -/

/-- A malformed row is as good as none. -/
theorem ofRows_malformed (before after : List Row) (h : Entry.ofRow r = .error m) :
    (ofRows (before ++ r :: after)).1 = (ofRows (before ++ after)).1 := by
  simp [ofRows, sort, h, Except.toOption]

/-- What is rejected is rejected in the order of the rows. -/
theorem rejected_ofRows (rows : List Row) :
    (ofRows rows).2.map .error = (rows.map Entry.ofRow).filter fun judged => !judged.isOk := by
  induction rows using List.reverseRecOn with
  | nil => rfl
  | append_singleton rows r ih =>
    rw [List.map_append, List.filter_append, ← ih]
    cases hrow : Entry.ofRow r with
    | error m => simp [ofRows_concat_error rows hrow, hrow, Except.isOk, Except.toBool]
    | ok e => simp [ofRows_concat_ok rows hrow, hrow, Except.isOk, Except.toBool]

/-- Each row that is not accepted is rejected once. -/
theorem length_rejected (rows : List Row) :
    (ofRows rows).2.length = rows.countP fun r => !(Entry.ofRow r).isOk := by
  have hlength := congrArg List.length (rejected_ofRows rows)
  rwa [List.length_map, ← List.countP_eq_length_filter, List.countP_map] at hlength

/-! ## Other orders -/

/-- Snapshots in which the same is found under each key have the same entries. -/
theorem entries_perm {s s' : Snapshot} (h : ∀ k, s.get? k = s'.get? k) :
    s.entries.Perm s'.entries := by
  refine (List.perm_ext_iff_of_nodup s.nodup.of_map s'.nodup.of_map).mpr fun e => ?_
  have hmem (s : Snapshot) : e ∈ s.entries ↔ s.get? e.key = some e := by
    rw [get?_eq_some_iff, and_iff_left rfl]
  rw [hmem, hmem, h]

theorem get?_ofRows_congr (h : ∀ k, rows'.filter (accepts k) = rows.filter (accepts k)) (k : Key) :
    (ofRows rows').1.get? k = (ofRows rows).1.get? k := by
  rw [get?_ofRows, get?_ofRows, h]

/-- The order of the rows does not matter to which are rejected. -/
theorem rejected_perm (h : rows'.Perm rows) : (ofRows rows').2.Perm (ofRows rows).2 :=
  h.filterMap _

/-- **The last accepted row of each key wins.** A snapshot has under a key the entry of the last row
    that is accepted and has the key, and no other keys. A malformed row leaves the snapshot as it
    is without it, wherever it stands, so that nothing is replaced by it and nothing lost. The
    faults are those of the malformed rows, in their order, and with them every row is accounted
    for. In another order in which the accepted rows of each key stand among each other as before,
    the rows give the same snapshot. -/
theorem last_row_wins (rows : List Row) :
    (∀ k e, (ofRows rows).1.get? k = some e ↔
      ∃ before r after, rows = before ++ r :: after ∧ Entry.ofRow r = .ok e ∧ e.key = k ∧
        ∀ later ∈ after, accepts k later = false) ∧
    (∀ k, k ∈ (ofRows rows).1.keys ↔ ∃ r ∈ rows, accepts k r) ∧
    (∀ before r after m, rows = before ++ r :: after → Entry.ofRow r = .error m →
      (ofRows rows).1 = (ofRows (before ++ after)).1) ∧
    ((ofRows rows).2.map .error = (rows.map Entry.ofRow).filter (fun judged => !judged.isOk) ∧
      (rows.countP fun r => (Entry.ofRow r).isOk) + (ofRows rows).2.length = rows.length) ∧
    ∀ rows', rows'.Perm rows → (∀ k, rows'.filter (accepts k) = rows.filter (accepts k)) →
      (∀ k, (ofRows rows').1.get? k = (ofRows rows).1.get? k) ∧
        (ofRows rows').1.entries.Perm (ofRows rows).1.entries ∧
        (ofRows rows').2.Perm (ofRows rows).2 := by
  refine ⟨fun k e => get?_ofRows_eq_some_iff, fun k => mem_keys_ofRows_iff, ?malformed,
    ⟨rejected_ofRows rows, ?account⟩, ?reordered⟩
  case malformed =>
    rintro before r after m rfl hrow
    exact ofRows_malformed before after hrow
  case account =>
    rw [length_rejected, List.length_eq_countP_add_countP fun r => (Entry.ofRow r).isOk]
    simp
  case reordered =>
    intro rows' hperm hkept
    have hget := get?_ofRows_congr hkept
    exact ⟨hget, entries_perm hget, rejected_perm hperm⟩

/-! ## Mixed rows -/

/-- A row for `ndt` at a target. -/
def sampleRow (target : String) (probability : Float) (requestsPerDay : Int) : Row :=
  { path := "ndt", target, probability, requestsPerDay }

/-- A row, a malformed one with the same key, one with another key, and again one
    with the first key. -/
def mixedRows : List Row :=
  [sampleRow "10.0.0.1" 0.5 1, sampleRow "10.0.0.1" 1.5 2, sampleRow "10.0.0.2" 1.0 3,
    sampleRow "10.0.0.1" 1.0 4]

/-- The same with the malformed row at the end and the one with another key at the start. -/
def mixedAgain : List Row :=
  [sampleRow "10.0.0.2" 1.0 3, sampleRow "10.0.0.1" 0.5 1, sampleRow "10.0.0.1" 1.0 4,
    sampleRow "10.0.0.1" 1.5 2]

theorem last_row_wins_mixedRows :
    (∀ k, mixedAgain.filter (accepts k) = mixedRows.filter (accepts k)) ∧
      (∀ k, (ofRows mixedAgain).1.get? k = (ofRows mixedRows).1.get? k) ∧
      ((ofRows mixedRows).1.get? ⟨"", "ndt", "", "10.0.0.1"⟩).map Entry.requestsPerDay = some 4 ∧
      (ofRows mixedRows).2.length = 1 := by
  have hok :
      ∀ r ∈ [sampleRow "10.0.0.1" 0.5 1, sampleRow "10.0.0.2" 1.0 3, sampleRow "10.0.0.1" 1.0 4],
      (Entry.ofRow r).isOk := by
    decide +kernel
  have hmalformed : (Entry.ofRow (sampleRow "10.0.0.1" 1.5 2)).isOk = false := by decide +kernel
  have hkey (target : String) (p : Float) (n : Int) :
      (sampleRow target p n).key = ⟨"", "ndt", "", target⟩ := rfl
  have hkept : ∀ k, mixedAgain.filter (accepts k) = mixedRows.filter (accepts k) := by
    intro k
    simp only [List.forall_mem_cons] at hok
    obtain ⟨hfirst, hother, hlast, -⟩ := hok
    by_cases hk : k = ⟨"", "ndt", "", "10.0.0.2"⟩
    · simp [mixedAgain, mixedRows, accepts, hkey, hother, hmalformed, hk]
    · simp [mixedAgain, mixedRows, List.filter_cons, accepts, hkey, hfirst, hlast,
        hmalformed, Ne.symm hk]
  have hperm : mixedAgain.Perm mixedRows :=
    (List.Perm.swap _ _ _).trans ((List.perm_append_singleton _ [_, _]).cons _)
  obtain ⟨-, -, -, -, hreordered⟩ := last_row_wins mixedRows
  exact ⟨hkept, (hreordered mixedAgain hperm hkept).1, by decide +kernel, by decide +kernel⟩

end Roster.Snapshot
