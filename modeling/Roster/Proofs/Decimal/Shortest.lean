import Roster.Decimal.Shortest
import Roster.Proofs.Decimal.Binary

/-!
# Shortest decimals round to their double

Whatever decimal `Binary.shortest` comes up with, it is one that rounds to the double
(`takes_shortest`): the search returns nothing that does not read back, and if it finds nothing the
exact value is taken. How many digits that takes is of no concern here.
-/

namespace Roster.Decimal

/-- The number that a decimal stands for. -/
def Dec.value (d : Dec) : ℚ :=
  d.digits * 10 ^ d.exponent

theorem Dec.value_strip (fuel : ℕ) (d : Dec) : (d.strip fuel).value = d.value := by
  induction fuel generalizing d with
  | zero => rfl
  | succ fuel ih =>
    rw [Dec.strip]
    split
    · next hzero =>
      rw [ih, value, value, zpow_add_one₀ (by norm_num)]
      have hdigits : (d.digits : ℚ) = (d.digits / 10 : ℕ) * 10 := by
        exact_mod_cast (Nat.div_mul_cancel (Nat.dvd_of_mod_eq_zero hzero.2)).symm
      rw [hdigits]
      ring
    · rfl

namespace Binary

variable {b : Binary} {d : Dec} {tie : Tie}

theorem low_pos (hm : b.m ≠ 0) : 0 < b.low := by
  have hone : (1 : ℚ) ≤ b.m := by exact_mod_cast Nat.one_le_iff_ne_zero.mpr hm
  refine mul_pos ?_ (scale_pos _)
  split <;> linarith

/-- Digits are read back as a double if and only if that double takes their value. -/
theorem readsBack_iff (hm : b.m ≠ 0) : b.readsBack d ↔ b.Takes d.value := by
  -- The ends of the interval are compared in quarters, which makes them whole.
  have hquarter : (2 : ℚ) ^ b.q = 4 * 2 ^ (b.q - 2) := by
    rw [zpow_sub₀ two_ne_zero]
    norm_num
    ring
  have hlow : ((if b.narrowBelow then 4 * b.m - 1 else 4 * b.m - 2 : ℕ) : ℚ) * 2 ^ (b.q - 2) =
      b.low := by
    rw [low, hquarter]
    split
    · rw [Nat.cast_sub (by omega)]
      push_cast
      ring
    · rw [Nat.cast_sub (by omega)]
      push_cast
      ring
  have hhigh : ((4 * b.m + 2 : ℕ) : ℚ) * 2 ^ (b.q - 2) = b.high := by
    rw [high, hquarter]
    push_cast
    ring
  simp only [readsBack, compareScaled_eq, hlow, hhigh]
  change (_ : Bool) = true ↔ _
  rw [Bool.and_eq_true, Bool.or_eq_true, Bool.or_eq_true, Bool.and_eq_true, Bool.and_eq_true]
  simp only [beq_iff_eq, compare_gt_iff_gt, compare_lt_iff_lt, compare_eq_iff_eq, decide_eq_true_eq]
  constructor
  · rintro ⟨hl, hh⟩
    exact ⟨hl.imp id fun h => ⟨h.1, h.2.symm⟩, hh⟩
  · rintro ⟨hl, hh⟩
    exact ⟨hl.imp id fun h => ⟨h.1, h.2.symm⟩, hh⟩

theorem readsBack_of_onGrid {exponent : ℤ} (h : b.onGrid tie exponent = some d) :
    b.readsBack d := by
  cases hlow : b.readsBack ⟨b.floorAt exponent, exponent⟩ <;>
    cases hhigh : b.readsBack ⟨b.floorAt exponent + 1, exponent⟩ <;>
    simp only [onGrid, hlow, hhigh] at h
  · cases h
  · cases h
    exact hhigh
  · cases h
    exact hlow
  · -- both do, so it does not matter which is nearer
    split at h
    · cases h
      exact hlow
    · cases h
      exact hhigh
    · split at h <;> cases h
      · split
        · exact hlow
        · exact hhigh
      · exact hhigh

/-- What the search finds is read back. -/
theorem readsBack_of_search {fuel : ℕ} {exponent : ℤ} (h : b.search tie fuel exponent = some d) :
    b.readsBack d := by
  induction fuel generalizing exponent with
  | zero => cases h
  | succ fuel ih =>
    rw [search] at h
    split at h
    · next hgrid => cases h; exact readsBack_of_onGrid hgrid
    · exact ih h

theorem value_exact (b : Binary) : b.exact.value = b.value := by
  have hfive : (10 : ℚ) ^ (-b.q).toNat = 5 ^ (-b.q).toNat * 2 ^ (-b.q).toNat := by
    rw [← mul_pow]
    norm_num
  rw [Dec.value, exact, value, zpow_eq_div two_ne_zero, zpow_neg, zpow_natCast, hfive]
  simp only [Nat.pow_eq]
  push_cast
  field_simp

/-- **The shortest decimal of a double rounds to it.** -/
theorem takes_shortest (tie : Tie) (hm : b.m ≠ 0) : b.Takes (b.shortest tie).value := by
  rw [shortest, if_neg hm, Dec.value_strip]
  cases hsearch : b.search tie 17 (b.scale - 1) with
  | none =>
    -- Nothing was found, so it is the exact value that is written.
    rw [Option.getD_none, value_exact]
    exact b.takes_value
  | some d => exact (readsBack_iff hm).mp (readsBack_of_search hsearch)

/-- A double other than zero is not written as zero. -/
theorem digits_shortest (tie : Tie) (hm : b.m ≠ 0) : (b.shortest tie).digits ≠ 0 := by
  intro hzero
  have htakes := takes_shortest tie hm
  rw [Dec.value, hzero, Nat.cast_zero, zero_mul] at htakes
  have hpos := low_pos hm
  rcases htakes.low with hlt | ⟨-, heq⟩
  · exact absurd hlt hpos.not_gt
  · exact absurd heq hpos.ne'

end Binary

end Roster.Decimal
