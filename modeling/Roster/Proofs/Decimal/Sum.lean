import Roster.Proofs.Decimal.Proportion

/-!
# Sums of proportions

Proportions are added one after the other, each time with rounding, and all that is needed of the
result is its sign. Rounding is monotone, so no sum is less than what went into it, and a sum
stays in range because at `2 ^ 53` it stops: one more is half way to the next double, and the tie
goes to the even one.
-/

namespace Roster.Decimal

open Float.Model.UnpackedFloat (Sign)

variable {a b : Binary} {s : Sign}

/-- Where sums of proportions stop. -/
def sumLimit : Binary :=
  .ofParts (2 ^ 52) 1

theorem canonical_sumLimit : sumLimit.Canonical :=
  Binary.canonical_ofParts (by norm_num) (by norm_num) (.inl le_rfl)

theorem value_sumLimit : sumLimit.value = 2 ^ 53 := by
  norm_num [Binary.value, sumLimit, Binary.ofParts]

theorem sumLimit_takes : sumLimit.Takes (2 ^ 53 + 1) := by
  refine ⟨.inl (sumLimit.low_lt_value.trans ?_), .inr ⟨by decide, ?_⟩⟩
  · rw [value_sumLimit]
    exact lt_add_one _
  · norm_num [Binary.high, sumLimit, Binary.ofParts]

/-- A sum is no less than either of the two, and a proportion does not take it beyond `2 ^ 53`. -/
theorem add_proportion (ha : a.Finite) (hb : b.Finite) (hs : s = .positive ∨ b.m = 0)
    (hle : a.value ≤ 2 ^ 53) (hone : b.value ≤ 1) :
    ∃ c : Binary, c.Finite ∧ c.value ≤ 2 ^ 53 ∧ a.value ≤ c.value ∧ b.value ≤ c.value ∧
      double .positive a + double s b = double .positive c := by
  obtain ⟨c, hc, htakes, hsum⟩ := rounded_add ha hb hs
  have hbound : a.value + b.value ≤ 2 ^ 53 + 1 := add_le_add hle hone
  have hmax : (2 : ℚ) ^ 53 + 1 ≤ 10 ^ 308 := le_of_le_size (by norm_num)
  refine ⟨c, htakes.finite hc (hbound.trans hmax), ?_, ?_, ?_, hsum⟩
  · rw [← value_sumLimit]
    exact htakes.mono sumLimit_takes hc canonical_sumLimit hbound
  · exact a.takes_value.mono htakes ha.toCanonical hc (le_add_of_nonneg_right b.value_nonneg)
  · exact b.takes_value.mono htakes hb.toCanonical hc (le_add_of_nonneg_left a.value_nonneg)

variable {α : Type} {f : α → Float}

/-- A sum of proportions is a magnitude that is no less than where it starts, and positive
    if one of them is. -/
theorem exists_sum (xs : List α) (h : ∀ x ∈ xs, 0.0 ≤ f x ∧ f x ≤ 1.0) (ha : a.Finite)
    (hle : a.value ≤ 2 ^ 53) :
    ∃ c : Binary, c.Finite ∧ a.value ≤ c.value ∧ (∀ x ∈ xs, 0.0 < f x → 0 < c.value) ∧
      xs.foldl (fun total x => total + f x) (double .positive a) = double .positive c := by
  induction xs generalizing a with
  | nil => exact ⟨a, ha, le_rfl, nofun, rfl⟩
  | cons x xs ih =>
    obtain ⟨hlow, hhigh⟩ := h x List.mem_cons_self
    obtain ⟨s, b, hb, hs, hone, hx⟩ := exists_of_proportion hlow hhigh
    obtain ⟨next, hnext, hlimit, hgrows, hcontains, hsum⟩ := add_proportion ha hb hs hle hone
    obtain ⟨c, hc, hmore, hpositive, hfold⟩ :=
      ih (fun y hy => h y (List.mem_cons_of_mem x hy)) hnext hlimit
    refine ⟨c, hc, hgrows.trans hmore, fun y hy hy0 => ?_, ?_⟩
    · rcases List.mem_cons.mp hy with rfl | hrest
      · rw [hx, zero_lt_double_iff hb] at hy0
        have hne : b.value ≠ 0 := fun hzero => hy0.2 (Binary.value_eq_zero_iff.mp hzero)
        exact (b.value_nonneg.lt_of_ne' hne).trans_le (hcontains.trans hmore)
      · exact hpositive y hrest hy0
    · rw [List.foldl_cons, hx, hsum, hfold]

/-- **A sum of proportions is positive if one of them is.** -/
theorem sum_pos {xs : List α} (h : ∀ x ∈ xs, 0.0 ≤ f x ∧ f x ≤ 1.0) (hpos : ∃ x ∈ xs, 0.0 < f x) :
    ¬ xs.foldl (fun total x => total + f x) 0.0 ≤ 0.0 := by
  have hzero : Binary.zero.value ≤ 2 ^ 53 := by
    rw [Binary.value_zero]
    positivity
  obtain ⟨c, hc, -, hpositive, hfold⟩ := exists_sum xs h finite_zero hzero
  obtain ⟨x, hx, hx0⟩ := hpos
  rw [← double_zero, hfold, double_le_iff hc finite_zero, Binary.value_zero, not_le]
  exact hpositive x hx hx0

end Roster.Decimal
