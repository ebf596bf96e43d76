import Mathlib.Algebra.BigOperators.Group.Finset.Basic
import Mathlib.Algebra.Order.BigOperators.Group.Finset
import Roster.Sync.RateTable

/-!
# What the ledger adds up

A counter is found by its name and its label, so adding to one of them leaves all others as they
were. That is the one fact that everybody needs who counts anything: `total_add`.

Three components write to the ledger, and each has counters of its own (`Counter.writer`).
What one of them writes is nothing to the others (`Agree`), so that what each has counted can
be looked at apart.
-/

namespace Roster

/-! ## Lists of labels -/

theorem count_singleton_eq {β : Type} [DecidableEq β] (a b : β) :
    [b].count a = if a = b then 1 else 0 := by
  by_cases h : a = b
  · simp [h]
  · simp [h, Ne.symm h]

/-- Everything in a list is counted under some label. -/
theorem sum_count_eq_length {β : Type} [DecidableEq β] {labels : Finset β} {marks : List β}
    (h : ∀ b ∈ marks, b ∈ labels) : ∑ b ∈ labels, marks.count b = marks.length := by
  simpa using Multiset.sum_count_eq_card (m := (marks : Multiset β)) (by simpa using h)

/-! ## Counters -/

namespace Ledger

variable {counters : List (Counter × Nat)} {d : Counter}

theorem lookup_cons_eq {b : Counter} {m : Nat} :
    ((b, m) :: counters).lookup d = if d = b then some m else counters.lookup d := by
  by_cases h : d = b
  · rw [if_pos h, List.lookup_cons, beq_iff_eq.mpr h]
  · rw [if_neg h, List.lookup_cons, beq_false_of_ne h]

theorem lookup_addTo (c d : Counter) (n : Nat) (counters : List (Counter × Nat)) :
    ((addTo c n counters).lookup d).getD 0 =
      (counters.lookup d).getD 0 + if d = c then n else 0 := by
  induction counters with
  | nil =>
    rw [addTo, lookup_cons_eq]
    split
    · simp
    · rfl
  | cons first rest ih =>
    obtain ⟨b, m⟩ := first
    unfold addTo
    by_cases hbc : b = c
    · subst hbc
      rw [if_pos rfl, lookup_cons_eq, lookup_cons_eq]
      split
      · rfl
      · rfl
    · rw [if_neg hbc, lookup_cons_eq, lookup_cons_eq]
      by_cases hdb : d = b
      · subst hdb
        rw [if_pos rfl, if_pos rfl, if_neg hbc]
        rfl
      · rw [if_neg hdb, if_neg hdb]
        exact ih

/-- Adding to a counter changes that counter alone. -/
@[simp] theorem total_add (l : Ledger) (c d : Counter) (n : Nat) :
    (l.add c n).total d = l.total d + if d = c then n else 0 :=
  lookup_addTo c d n l.counters

@[simp] theorem total_count (l : Ledger) (c d : Counter) :
    (l.count c).total d = l.total d + if d = c then 1 else 0 :=
  total_add l c d 1

end Ledger

namespace RateTable

/-- The end of a cycle is counted among the failures for its reason, if it has
    failed, and nowhere else. -/
theorem total_recordEnd_error (l : Ledger) (e : SyncError) (c : Counter) :
    (recordEnd l (.error e)).total c = l.total c + if c = .failures e.reason then 1 else 0 :=
  Ledger.total_count { l with cycles := l.cycles + 1 } _ c

theorem total_recordEnd_of_ne {l : Ledger} {c : Counter} (h : ∀ reason, c ≠ .failures reason)
    (result : CycleResult) : (recordEnd l result).total c = l.total c := by
  cases result with
  | ok report => rfl
  | error e => rw [total_recordEnd_error, if_neg (h e.reason), Nat.add_zero]

end RateTable

/-! ## Whose counters they are -/

/-- The components that count. -/
inductive Writer where
  | synchronizer
  | reader
  | query
  deriving DecidableEq

/-- Who of the three counts in a counter. -/
def Counter.writer : Counter → Writer
  | .evictions => .synchronizer
  | .rejectedRows => .synchronizer
  | .failures _ => .synchronizer
  | .cacheHit => .reader
  | .cacheMiss => .reader
  | .cacheFallback => .reader
  | .queries _ => .query
  | .throttled _ => .query
  | .queryErrors _ => .query

namespace Ledger

variable {w : Writer} {l l' l'' : Ledger} {c : Counter}

/-- What one component has written is the same in two ledgers. -/
structure Agree (w : Writer) (l l' : Ledger) : Prop where
  totals : ∀ c : Counter, c.writer = w → l'.total c = l.total c
  cycles : w = .synchronizer → l'.cycles = l.cycles
  queries : w = .query → l'.queries = l.queries

theorem Agree.refl (w : Writer) (l : Ledger) : Agree w l l :=
  ⟨fun _ _ => rfl, fun _ => rfl, fun _ => rfl⟩

theorem Agree.trans (h : Agree w l l') (h' : Agree w l' l'') : Agree w l l'' where
  totals c hc := (h'.totals c hc).trans (h.totals c hc)
  cycles hw := (h'.cycles hw).trans (h.cycles hw)
  queries hw := (h'.queries hw).trans (h.queries hw)

/-- Adding to a counter changes nothing for those who do not write it. -/
theorem agree_add (hc : c.writer ≠ w) (n : ℕ) : Agree w l (l.add c n) where
  totals d hd := by
    have hne : d ≠ c := by
      rintro rfl
      exact hc hd
    rw [total_add, if_neg hne, Nat.add_zero]
  cycles _ := rfl
  queries _ := rfl

theorem agree_recordEnd (hw : w ≠ .synchronizer) (result : CycleResult) :
    Agree w l (RateTable.recordEnd l result) where
  totals c hc := by
    refine RateTable.total_recordEnd_of_ne (fun reason heq => hw ?_) result
    rw [← hc, heq]
    rfl
  cycles h := absurd h hw
  queries _ := by
    cases result with
    | ok _ => rfl
    | error _ => rfl

end Ledger

end Roster
