import Roster.Proofs.Decimal.Proportion

/-!
# Doubles in a range

How large a calculation can become is followed in whole numbers. One of at most 53 bits is a double
itself, and rounding is monotone, so bounds of this kind add up and multiply as if nothing were
rounded (`Within.mul`, `Within.one_add`); there is no error to keep account of.

A zero may have a sign, and it comes with one where a negative number is multiplied by a zero. So a
range that begins at zero has both zeros in it.
-/

namespace Roster.Decimal

open Float.Model.UnpackedFloat (Sign)

variable {a b : Binary} {s t : Sign} {v : ℚ} {x y : Float} {k m n : ℕ}

/-- A number from zero to a bound. With a sign it is zero. -/
def Within (n : ℕ) (x : Float) : Prop :=
  ∃ (s : Sign) (b : Binary), b.Finite ∧ (s = .positive ∨ b.m = 0) ∧ b.value ≤ n ∧ x = double s b

/-- What is no more than a whole number rounds to no more than that. -/
theorem Binary.Takes.le_nat (h : b.Takes v) (hb : b.Canonical) (hn : n < 2 ^ 53) (hv : v ≤ n) :
    b.Finite ∧ b.value ≤ n := by
  obtain ⟨c, hc, hvalue⟩ := exists_value_eq hn
  have hmax : (n : ℚ) ≤ 10 ^ 308 := by
    apply le_of_le_size
    exact_mod_cast hn.le.trans (by norm_num)
  rw [← hvalue] at hv ⊢
  exact ⟨h.finite hb (by rw [hvalue] at hv; exact hv.trans hmax),
    h.mono c.takes_value hb hc.toCanonical hv⟩

/-- A double between zero and a natural number is within it. -/
theorem within_of_le (hn : n < 2 ^ 53) (hlow : 0.0 ≤ x) (hhigh : x ≤ n.toUInt64.toFloat) :
    Within n x := by
  obtain ⟨b, hb, hvalue, hfloat⟩ := exists_toFloat_eq hn
  rw [hfloat] at hhigh
  obtain ⟨hfinite, hnegative, hle⟩ := finite_of_between hb hlow hhigh
  refine ⟨sign x, .ofFloat x, (unpack_of_isFinite hfinite).2, ?_, hle.trans_eq hvalue,
    (double_ofFloat hfinite).symm⟩
  by_cases hsign : signBit x
  · exact .inr (hnegative hsign)
  · exact .inl (if_neg hsign)

theorem within_double (hb : b.Finite) (hs : s = .positive ∨ b.m = 0) (hn : n < 2 ^ 53)
    (hle : ¬ n.toUInt64.toFloat < double s b) : Within n (double s b) := by
  refine ⟨s, b, hb, hs, ?_, rfl⟩
  rcases hs with rfl | hzero
  · obtain ⟨c, hc, hvalue, hfloat⟩ := exists_toFloat_eq hn
    rwa [hfloat, double_lt_iff hc hb, not_lt, hvalue] at hle
  · rw [Binary.value_of_eq_zero hzero]
    exact Nat.cast_nonneg n

/-- A finite number that is not outside a range is within it. -/
theorem within_of_isFinite (hfinite : x.isFinite) (hn : n < 2 ^ 53) (hlow : ¬ x < 0.0)
    (hhigh : ¬ n.toUInt64.toFloat < x) : Within n x := by
  have hdouble := double_ofFloat hfinite
  rw [← hdouble] at hhigh ⊢
  exact within_double (unpack_of_isFinite hfinite).2 (sign_of_not_lt hfinite hlow) hn hhigh

/-- What is positive and does not exceed a bound is within it. -/
theorem within_of_pos (hn : n < 2 ^ 53) (hpos : 0.0 < x) (hhigh : ¬ n.toUInt64.toFloat < x) :
    Within n x := by
  obtain ⟨b, hb, -, hfloat⟩ := exists_toFloat_eq hn
  have hfinite : x.isFinite := by
    rw [← double_zero, lt_iff, unpack_double finite_zero, Binary.unpacked_of_eq_zero _ rfl] at hpos
    rw [hfloat, lt_iff, unpack_double hb] at hhigh
    apply isFinite_of_unpack
    · intro hu
      rw [hu] at hpos
      cases hpos
    · intro s hu
      rw [hu] at hpos hhigh
      cases s with
      | positive =>
        -- infinity is greater than any bound
        refine absurd ?_ hhigh
        unfold Binary.unpacked
        split <;> rfl
      | negative => cases hpos
  have hdouble := double_ofFloat hfinite
  have hx := (unpack_of_isFinite hfinite).2
  rw [← hdouble] at hpos hhigh ⊢
  exact within_double hx (.inl ((zero_lt_double_iff hx).mp hpos).1) hn hhigh

/-! ## Calculating -/

/-- A product is bounded by the product of the bounds. -/
theorem exists_mul (ha : a.Finite) (hb : b.Finite) (hm : a.value ≤ m) (hn : b.value ≤ n)
    (h : m * n < 2 ^ 53) (s t : Sign) :
    ∃ c : Binary, c.Finite ∧ c.value ≤ (m * n : ℕ) ∧ (a.m = 0 ∨ b.m = 0 → c.m = 0) ∧
      double s a * double t b = double (s * t) c := by
  obtain ⟨c, hc, htakes, hproduct⟩ := rounded_mul (s := s) (t := t) ha hb
  have hle : a.value * b.value ≤ (m * n : ℕ) := by
    rw [Nat.cast_mul]
    exact mul_le_mul hm hn b.value_nonneg (Nat.cast_nonneg m)
  obtain ⟨hfinite, hbound⟩ := htakes.le_nat hc h hle
  refine ⟨c, hfinite, hbound, fun hzero => ?_, hproduct⟩
  -- what is no more than zero rounds to zero
  have hnone : a.value * b.value = 0 := by
    rcases hzero with ha0 | hb0
    · rw [Binary.value_of_eq_zero ha0, zero_mul]
    · rw [Binary.value_of_eq_zero hb0, mul_zero]
  have hzero := (htakes.le_nat hc (n := 0) (by norm_num) (by rw [hnone, Nat.cast_zero])).2
  rw [Nat.cast_zero] at hzero
  exact Binary.value_eq_zero_iff.mp (le_antisymm hzero c.value_nonneg)

/-- Bounds are multiplied with what they bound. -/
theorem Within.mul (hx : Within m x) (hy : Within n y) (h : m * n < 2 ^ 53) :
    Within (m * n) (x * y) := by
  obtain ⟨s, a, ha, hs, hm, rfl⟩ := hx
  obtain ⟨t, b, hb, ht, hn, rfl⟩ := hy
  obtain ⟨c, hc, hle, hzero, hproduct⟩ := exists_mul ha hb hm hn h s t
  refine ⟨s * t, c, hc, ?_, hle, hproduct⟩
  rcases hs with rfl | ha0
  · rcases ht with rfl | hb0
    · exact .inl rfl
    · exact .inr (hzero (.inr hb0))
  · exact .inr (hzero (.inl ha0))

/-- Two signs make none. -/
theorem Within.neg_mul (hx : Within m x) (hn : n < 2 ^ 53) (hlow : -n.toUInt64.toFloat ≤ y)
    (hhigh : y ≤ 0.0) (h : m * n < 2 ^ 53) : Within (m * n) (-x * y) := by
  obtain ⟨s, a, ha, hs, hm, rfl⟩ := hx
  obtain ⟨d, hd, hvalue, hfloat⟩ := exists_toFloat_eq hn
  rw [hfloat] at hlow
  obtain ⟨hfinite, hpositive, hle⟩ := finite_of_between_neg hd hlow hhigh
  rw [hvalue] at hle
  obtain ⟨c, hc, hbound, hzero, hproduct⟩ :=
    exists_mul ha (unpack_of_isFinite hfinite).2 hm hle h (-s) (sign y)
  rw [← neg_double ha, double_ofFloat hfinite] at hproduct
  refine ⟨-s * sign y, c, hc, ?_, hbound, hproduct⟩
  rcases hs with rfl | ha0
  · cases hsign : signBit y with
    | false => exact .inr (hzero (.inr (hpositive hsign)))
    | true =>
      rw [sign, if_pos hsign]
      exact .inl rfl
  · exact .inr (hzero (.inl ha0))

/-- A bound grows by one with what it bounds. -/
theorem Within.one_add (hx : Within n x) (h : n + 1 < 2 ^ 53) : Within (n + 1) (1.0 + x) := by
  obtain ⟨s, b, hb, hs, hle, rfl⟩ := hx
  obtain ⟨c, hc, htakes, hsum⟩ := rounded_add Binary.finite_one hb hs
  rw [Binary.value_one] at htakes
  have hbound : 1 + b.value ≤ (n + 1 : ℕ) := by
    rw [Nat.cast_succ]
    linarith
  obtain ⟨hfinite, hvalue⟩ := htakes.le_nat hc h hbound
  rw [← double_one, hsum]
  exact ⟨.positive, c, hfinite, .inl rfl, hvalue, rfl⟩

end Roster.Decimal
