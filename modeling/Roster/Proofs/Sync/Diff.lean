import Roster.Sync.Diff

/-!
# What is evicted

The eviction list of a comparison is a set written down in ascending order:
`mem_toEvict_iff` says which set, and `pairwise_sorted` that the list has no other content.
The reserved name of the manifest and the keys of the new snapshot are never on it, whatever
is thought to be in the backends.
-/

namespace Roster.Diff

variable {texts present : List String} {s : Snapshot} {key : String}

/-- Sorting texts that are distinct leaves no two of them level. -/
theorem pairwise_mergeSort (h : texts.Nodup) :
    (texts.mergeSort fun a b => decide (a ≤ b)).Pairwise (· < ·) := by
  have hle : (texts.mergeSort fun a b => decide (a ≤ b)).Pairwise fun a b => decide (a ≤ b) := by
    refine List.pairwise_mergeSort ?_ ?_ texts
    · intro a b c hab hbc
      exact decide_eq_true (String.le_trans (of_decide_eq_true hab) (of_decide_eq_true hbc))
    · intro a b
      rcases String.le_total a b with hab | hba
      · simp [hab]
      · simp [hba]
  have hne : (texts.mergeSort fun a b => decide (a ≤ b)).Pairwise (· ≠ ·) :=
    (List.mergeSort_perm texts _).nodup_iff.mpr h
  refine hle.imp₂ (fun a b hab hne => ?_) hne
  exact Std.lt_of_le_of_ne (of_decide_eq_true hab) hne

theorem nodup_eraseDups : ∀ texts : List String, texts.eraseDups.Nodup
  | [] => List.nodup_nil
  | text :: rest => by
    rw [List.eraseDups_cons, List.nodup_cons]
    exact ⟨by simp, nodup_eraseDups _⟩
termination_by texts => texts.length
-- not a structural recursion: what is left is a part of the rest, not the rest
decreasing_by exact Nat.lt_succ_of_le (List.length_filter_le _ rest)

theorem mem_sorted_iff : key ∈ sorted texts ↔ key ∈ texts := by
  rw [sorted, List.mem_mergeSort, List.mem_eraseDups]

theorem pairwise_sorted (texts : List String) : (sorted texts).Pairwise (· < ·) :=
  pairwise_mergeSort (nodup_eraseDups texts)

theorem nodup_sorted (texts : List String) : (sorted texts).Nodup :=
  (pairwise_sorted texts).imp fun h => String.ne_of_lt h

/-- What is evicted is what is present and not wanted, but never the manifest. -/
theorem mem_toEvict_iff :
    key ∈ toEvict s present ↔ key ∈ present ∧ key ≠ Manifest.name ∧ key ∉ s.names := by
  simp [toEvict, mem_sorted_iff]

end Roster.Diff
