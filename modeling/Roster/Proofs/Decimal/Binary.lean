import Mathlib.Algebra.Order.Field.Power
import Mathlib.Data.Rat.Cast.Order
import Mathlib.Tactic.FieldSimp
import Mathlib.Tactic.Linarith
import Mathlib.Tactic.Positivity
import Mathlib.Tactic.Ring
import Roster.Decimal.Binary

/-!
# The numbers that round to a double

Rounding to the nearest double, ties to the even significand, is a relation here and no function:
`Binary.Takes b v` says that the number `v` lies between the points half way from `b` to its
neighbours. Whoever rounds gives the witness, and two facts about the relation replace the function.
It is monotone (`Takes.mono`), and so a number rounds to one double only (`Takes.unique`).

Both rest on one comparison, `high_le_low`: the upper end of a smaller double does not reach beyond
the lower end of a larger one, and where the two ends meet one of the significands is odd.
-/

namespace Roster.Decimal

/-! ## Comparing without fractions -/

theorem zpow_eq_div {x : ℚ} (hx : x ≠ 0) (k : ℤ) : x ^ k = x ^ k.toNat / x ^ (-k).toNat := by
  rw [← zpow_natCast, ← zpow_natCast, ← zpow_sub₀ hx]
  congr 1
  omega

/-- The comparison of scaled numbers is the one of the rationals they stand for. -/
theorem compareScaled_eq (n : ℕ) (i : ℤ) (m : ℕ) (j : ℤ) :
    compareScaled n i m j = compare (n * 10 ^ i : ℚ) (m * 2 ^ j) := by
  have hi : (0 : ℚ) < 10 ^ (-i).toNat := by positivity
  have hj : (0 : ℚ) < 2 ^ (-j).toNat := by positivity
  have hleft : (n * 10 ^ i : ℚ) =
      (n * 10 ^ i.toNat * 2 ^ (-j).toNat : ℕ) / (10 ^ (-i).toNat * 2 ^ (-j).toNat) := by
    rw [zpow_eq_div (by norm_num) i]
    push_cast
    field_simp
  have hright : (m * 2 ^ j : ℚ) =
      (m * 2 ^ j.toNat * 10 ^ (-i).toNat : ℕ) / (10 ^ (-i).toNat * 2 ^ (-j).toNat) := by
    rw [zpow_eq_div (by norm_num) j]
    push_cast
    field_simp
  -- Both sides over one denominator, and the numerators are what the program compares.
  have hpos : (0 : ℚ) < 10 ^ (-i).toNat * 2 ^ (-j).toNat := mul_pos hi hj
  rw [compareScaled, hleft, hright]
  simp only [Nat.pow_eq]
  generalize n * 10 ^ i.toNat * 2 ^ (-j).toNat = p
  generalize m * 2 ^ j.toNat * 10 ^ (-i).toNat = q
  rcases lt_trichotomy p q with hlt | heq | hgt
  · rw [compare_lt_iff_lt.mpr hlt, compare_lt_iff_lt.mpr]
    exact div_lt_div_of_pos_right (by exact_mod_cast hlt) hpos
  · rw [heq, compare_eq_iff_eq.mpr rfl, compare_eq_iff_eq.mpr rfl]
  · rw [compare_gt_iff_gt.mpr hgt, compare_gt_iff_gt.mpr]
    exact div_lt_div_of_pos_right (by exact_mod_cast hgt) hpos

namespace Binary

variable {a b : Binary} {v w : ℚ}

/-- The number that a significand and an exponent stand for. -/
def value (b : Binary) : ℚ :=
  b.m * 2 ^ b.q

/-- The significand has 53 bits, or the exponent is the least one. There is no largest exponent. -/
structure Canonical (b : Binary) : Prop where
  m_lt : b.m < 2 ^ 53
  le_q : -1074 ≤ b.q
  normal : 2 ^ 52 ≤ b.m ∨ b.q = -1074
  narrow : b.narrowBelow ↔ b.m = 2 ^ 52 ∧ -1074 < b.q

/-- Half way to the neighbour below. -/
def low (b : Binary) : ℚ :=
  (b.m - if b.narrowBelow then 1 / 4 else 1 / 2) * 2 ^ b.q

/-- Half way to the neighbour above. -/
def high (b : Binary) : ℚ :=
  (b.m + 1 / 2) * 2 ^ b.q

/-- The number rounds to `b`. -/
structure Takes (b : Binary) (v : ℚ) : Prop where
  low : b.low < v ∨ b.m % 2 = 0 ∧ b.low = v
  high : v < b.high ∨ b.m % 2 = 0 ∧ v = b.high

theorem scale_pos (q : ℤ) : (0 : ℚ) < 2 ^ q :=
  zpow_pos two_pos q

theorem value_eq_iff {n : ℕ} : b.value = n ↔ b.m * 2 ^ b.q.toNat = n * 2 ^ (-b.q).toNat := by
  rw [value, zpow_eq_div two_ne_zero, ← mul_div_assoc, div_eq_iff (by positivity)]
  exact_mod_cast Iff.rfl

theorem value_le_iff {n : ℕ} : b.value ≤ n ↔ b.m * 2 ^ b.q.toNat ≤ n * 2 ^ (-b.q).toNat := by
  rw [value, zpow_eq_div two_ne_zero, ← mul_div_assoc, div_le_iff₀ (by positivity)]
  exact_mod_cast Iff.rfl

theorem value_nonneg (b : Binary) : 0 ≤ b.value :=
  mul_nonneg (Nat.cast_nonneg _) (scale_pos _).le

theorem low_lt_value (b : Binary) : b.low < b.value := by
  have hpos := scale_pos b.q
  unfold low value
  split
  · nlinarith
  · nlinarith

theorem value_lt_high (b : Binary) : b.value < b.high := by
  have hpos := scale_pos b.q
  unfold high value
  nlinarith

/-- A double takes its own value. -/
theorem takes_value (b : Binary) : b.Takes b.value :=
  ⟨.inl b.low_lt_value, .inl b.value_lt_high⟩

/-- A larger exponent is at least twice the scale. -/
theorem two_mul_scale_le {p q : ℤ} (h : p < q) : 2 * (2 : ℚ) ^ p ≤ 2 ^ q := by
  rw [← zpow_one_add₀ two_ne_zero]
  exact zpow_le_zpow_right₀ one_le_two (by omega)

theorem Canonical.m_le (h : a.Canonical) : (a.m : ℚ) ≤ 2 ^ 53 - 1 := by
  have hm : a.m + 1 ≤ 2 ^ 53 := h.m_lt
  have hcast : (a.m : ℚ) + 1 ≤ 2 ^ 53 := by exact_mod_cast hm
  linarith

/-- Above the least exponent, the significand has all its bits. -/
theorem Canonical.le_m (h : b.Canonical) {p : ℤ} (hp : -1074 ≤ p) (hq : p < b.q) :
    (2 : ℚ) ^ 52 ≤ b.m := by
  have hm : 2 ^ 52 ≤ b.m := h.normal.resolve_right (by omega)
  exact_mod_cast hm

/-- Of two canonical forms, the one with the larger exponent is larger. -/
theorem Canonical.value_lt (ha : a.Canonical) (hb : b.Canonical) (hq : a.q < b.q) :
    a.value < b.value := by
  have hpos := scale_pos a.q
  calc
    a.value ≤ (2 ^ 53 - 1) * 2 ^ a.q := mul_le_mul_of_nonneg_right ha.m_le hpos.le
    _ < 2 ^ 52 * (2 * 2 ^ a.q) := by linarith
    _ ≤ b.m * 2 ^ b.q :=
      mul_le_mul (hb.le_m ha.le_q hq) (two_mul_scale_le hq) (by positivity) (Nat.cast_nonneg _)

/-- The exponents of canonical forms are ordered as their values are. -/
theorem Canonical.q_le (ha : a.Canonical) (hb : b.Canonical) (h : a.value ≤ b.value) :
    a.q ≤ b.q := by
  by_contra hq
  exact absurd (hb.value_lt ha (not_le.mp hq)) (not_lt.mpr h)

/-- If there is room for a whole step between two doubles, they meet at most if the
    step is all there is. -/
theorem high_le_low_of_le {n : ℕ} (hle : a.m + 1 ≤ n) (hlow : (n - 1 / 2) * 2 ^ a.q ≤ b.low) :
    a.high ≤ b.low ∧ (a.high = b.low → a.m + 1 = n) := by
  have hpos := scale_pos a.q
  have hcast : (a.m : ℚ) + 1 ≤ n := by exact_mod_cast hle
  have hhigh : a.high ≤ (n - 1 / 2) * 2 ^ a.q :=
    mul_le_mul_of_nonneg_right (by linarith) hpos.le
  refine ⟨hhigh.trans hlow, fun heq => ?_⟩
  have hsig : (a.m : ℚ) + 1 / 2 = n - 1 / 2 :=
    mul_right_cancel₀ hpos.ne' (le_antisymm hhigh (hlow.trans heq.ge))
  have hnext : (a.m : ℚ) + 1 = n := by linarith
  exact_mod_cast hnext

/-- Above a double whose neighbour below is not nearer than the one above there is room for more
    than a step of those with a lesser exponent. -/
theorem high_lt_low_of_wide (ha : a.Canonical) (hb : b.Canonical) (hq : a.q < b.q)
    (hwide : ¬ b.narrowBelow) : a.high < b.low := by
  have hpos := scale_pos a.q
  have hscale := two_mul_scale_le hq
  have hma := ha.m_le
  have hm : 2 ^ 52 + 1 ≤ b.m := by
    have hne : b.m ≠ 2 ^ 52 := fun heq => hwide (hb.narrow.mpr ⟨heq, by have := ha.le_q; omega⟩)
    have hle : 2 ^ 52 ≤ b.m := by exact_mod_cast hb.le_m ha.le_q hq
    omega
  have hmb : (2 : ℚ) ^ 52 + 1 ≤ b.m := by exact_mod_cast hm
  rw [low, if_neg hwide]
  calc
    a.high ≤ (2 ^ 53 - 1 / 2) * 2 ^ a.q := mul_le_mul_of_nonneg_right (by linarith) hpos.le
    _ < (2 ^ 52 + 1 / 2) * (2 * 2 ^ a.q) := by linarith
    _ ≤ (b.m - 1 / 2) * 2 ^ b.q :=
      mul_le_mul (by linarith) hscale (by positivity) (by linarith)

/-- **Where two doubles meet, one of them is odd.** -/
theorem high_le_low (ha : a.Canonical) (hb : b.Canonical) (h : a.value < b.value) :
    a.high ≤ b.low ∧ (a.high = b.low → a.m % 2 = 1 ∨ b.m % 2 = 1) := by
  rcases (ha.q_le hb h.le).lt_or_eq with hq | hq
  · by_cases hnarrow : b.narrowBelow
    · -- the upper one is a power of two, and the lower one comes next to it if all its bits are set
      have hm := (hb.narrow.mp hnarrow).1
      have hscale := two_mul_scale_le hq
      have hlow : ((2 ^ 53 : ℕ) - 1 / 2) * 2 ^ a.q ≤ b.low := by
        rw [low, if_pos hnarrow, hm]
        push_cast
        linarith
      obtain ⟨hle, hmeet⟩ := high_le_low_of_le ha.m_lt hlow
      exact ⟨hle, fun heq => .inl (by have := hmeet heq; omega)⟩
    · have hlt := high_lt_low_of_wide ha hb hq hnarrow
      exact ⟨hlt.le, fun heq => absurd heq hlt.ne⟩
  · -- neighbours with one exponent
    have hm : a.m < b.m := by
      rw [value, value, hq] at h
      exact_mod_cast lt_of_mul_lt_mul_right h (scale_pos b.q).le
    have hlow : (b.m - 1 / 2) * 2 ^ a.q ≤ b.low := by
      rw [low, ← hq]
      refine mul_le_mul_of_nonneg_right ?_ (scale_pos a.q).le
      split <;> linarith
    obtain ⟨hle, hmeet⟩ := high_le_low_of_le hm hlow
    exact ⟨hle, fun heq => by have := hmeet heq; omega⟩

/-- **Rounding is monotone.** -/
theorem Takes.mono (hv : a.Takes v) (hw : b.Takes w) (ha : a.Canonical) (hb : b.Canonical)
    (h : v ≤ w) : a.value ≤ b.value := by
  by_contra hlt
  obtain ⟨hle, hodd⟩ := high_le_low hb ha (not_le.mp hlt)
  rcases hw.high with hhigh | ⟨heven, hhigh⟩
  -- If either number lies inside its interval, they are out of order.
  · rcases hv.low with hlow | ⟨-, hlow⟩
    · linarith
    · linarith
  · rcases hv.low with hlow | ⟨heven', hlow⟩
    · linarith
    -- Both lie where the two doubles meet, and there both would have to be even.
    · have hmeet : b.high = a.low := by linarith
      have := hodd hmeet
      omega

/-- A value has one canonical form. -/
theorem Canonical.eq_of_value_eq (ha : a.Canonical) (hb : b.Canonical) (h : a.value = b.value) :
    a = b := by
  have hq : a.q = b.q := le_antisymm (ha.q_le hb h.le) (hb.q_le ha h.ge)
  have hm : a.m = b.m := by
    rw [value, value, hq] at h
    exact_mod_cast mul_right_cancel₀ (scale_pos b.q).ne' h
  have hnarrow : a.narrowBelow = b.narrowBelow := by
    rw [Bool.eq_iff_iff, ha.narrow, hb.narrow, hm, hq]
  cases a
  cases b
  simp_all

/-- **A number rounds to one double.** -/
theorem Takes.unique (hv : a.Takes v) (hw : b.Takes v) (ha : a.Canonical) (hb : b.Canonical) :
    a = b :=
  ha.eq_of_value_eq hb (le_antisymm (hv.mono hw ha hb le_rfl) (hw.mono hv hb ha le_rfl))

end Binary

end Roster.Decimal
