import Roster.Proofs.Decimal.Proportion

/-!
# Positive proportions

A proportion that is written and read can change in its last place, but not from something to
nothing (`zero_lt_iff_of_toNumber?`). What could make nothing of it is underflow, in one of at most
two quotients, so what is followed here is a lower bound. It need not be sharp: what is no less than
one and a half times the least double loses an eighth in each of five steps at most, and half of the
least double still rounds up. The least double itself is computed.
-/

namespace Roster.Decimal

open Float.Model.UnpackedFloat (Sign)

variable {a b : Binary} {v : ℚ} {x y : Float} {n : Numeral}

/-! ## Relative errors -/

/-- The least positive double. -/
def leastDouble : ℚ :=
  2 ^ (-1074 : ℤ)

theorem leastDouble_pos : 0 < leastDouble :=
  Binary.scale_pos _

theorem leastDouble_le : 8 * leastDouble ≤ 10 ^ (-308 : ℤ) := by
  obtain ⟨-, -, -, -, hpowers⟩ := powers_at_ends
  have hcast : (8 : ℚ) * 10 ^ 308 ≤ 2 ^ 1074 := by exact_mod_cast hpowers
  rw [leastDouble, zpow_neg, zpow_neg, zpow_ofNat, zpow_ofNat, ← div_eq_mul_inv, ← one_div]
  exact (div_le_div_iff₀ (by positivity) (by positivity)).mpr (by rwa [one_mul])

theorem le_leastDouble : 10 ^ (-324 : ℤ) ≤ leastDouble := by
  obtain ⟨-, -, -, hpowers, -⟩ := powers_at_ends
  have hcast : (2 : ℚ) ^ 1074 ≤ 10 ^ 324 := by exact_mod_cast hpowers
  rw [leastDouble, zpow_neg, zpow_neg, zpow_ofNat, zpow_ofNat]
  exact inv_anti₀ (by positivity) hcast

namespace Binary

/-- What rounds to a double that has three bits or more is within an eighth of it. -/
theorem Takes.near (h : b.Takes v) (hm : 4 ≤ b.m) : 7 / 8 * b.value ≤ v ∧ 8 / 9 * v ≤ b.value := by
  have hscale := scale_pos b.q
  have hcast : (4 : ℚ) ≤ b.m := by exact_mod_cast hm
  have hlow : b.low ≤ v := h.low.elim le_of_lt fun heq => heq.2.le
  have hhigh : v ≤ b.high := h.high.elim le_of_lt fun heq => heq.2.le
  unfold Binary.low at hlow
  unfold Binary.high at hhigh
  unfold value
  constructor
  · refine le_trans ?_ hlow
    split <;> nlinarith
  · nlinarith

/-- A significand is at least what the number has in steps of the least double. -/
theorem Takes.lt_m (h : b.Takes v) (hb : b.Canonical) {k : ℕ} (hk : k < 2 ^ 52)
    (hv : (k + 1 / 2) * leastDouble < v) : k < b.m := by
  by_contra hle
  have hq : b.q = -1074 := hb.normal.resolve_left (by omega)
  have hcast : (b.m : ℚ) ≤ k := by exact_mod_cast not_lt.mp hle
  have hhigh : v ≤ b.high := h.high.elim le_of_lt fun heq => heq.2.le
  unfold Binary.high at hhigh
  rw [hq, ← leastDouble] at hhigh
  have hpos := leastDouble_pos
  nlinarith

/-- What is at least four times the least double has a significand of at least four. -/
theorem Takes.four_le_m (h : b.Takes v) (hb : b.Canonical) (hv : 4 * leastDouble ≤ v) :
    4 ≤ b.m := by
  have hpos := leastDouble_pos
  exact h.lt_m hb (k := 3) (by norm_num) (by push_cast; linarith)

end Binary

/-! ## Quotients by powers of ten -/

theorem four_leastDouble_le_one : 4 * leastDouble ≤ 1 := by
  have hpos := leastDouble_pos
  have hone : (10 : ℚ) ^ (-308 : ℤ) ≤ 1 := zpow_le_one_of_nonpos₀ (by norm_num) (by norm_num)
  linarith [leastDouble_le]

/-- A quotient by a power of ten loses an eighth at most, before it is rounded. -/
theorem div_powerOfTen_takes {k : ℕ} (hk : k ≤ 308) (ha : a.Finite) (htakes : a.Takes v)
    (hv : v ≤ 10 ^ k) :
    ∃ (c : Binary) (w : ℚ), c.Finite ∧ c.Takes w ∧ c.value ≤ 1 ∧ 7 / 8 * (a.value / 10 ^ k) ≤ w ∧
      double .positive a / powerOfTen k = double .positive c := by
  obtain ⟨p, hp, hten, hone, hpower⟩ := exists_powerOfTen hk
  have hm : 4 ≤ p.m := p.takes_value.four_le_m hp.toCanonical (four_leastDouble_le_one.trans hone)
  obtain ⟨c, hc, hquotient, hle, hdouble⟩ :=
    div_takes ha hp (htakes.mono hten ha.toCanonical hp.toCanonical hv) (by linarith)
  refine ⟨c, _, hc, hquotient, hle, ?_, by rw [hpower, hdouble]⟩
  have hnear := (hten.near hm).1
  have hpos : (0 : ℚ) < 10 ^ k := by positivity
  rw [← mul_div_assoc, div_le_div_iff₀ hpos (by linarith)]
  nlinarith [a.value_nonneg]

/-- Dividing by a power of ten does not end at zero, if the quotient is far enough from it. -/
theorem div_powerOfTen_ne_zero {k : ℕ} (hk : k ≤ 308) (ha : a.Finite) (htakes : a.Takes v)
    (hv : v ≤ 10 ^ k) (hlow : 4 / 7 * leastDouble < a.value / 10 ^ k) :
    ∃ c : Binary, c.Finite ∧ c.m ≠ 0 ∧ double .positive a / powerOfTen k = double .positive c := by
  obtain ⟨c, w, hc, hquotient, -, hw, hdouble⟩ := div_powerOfTen_takes hk ha htakes hv
  have hlt : 0 < c.m := hquotient.lt_m hc.toCanonical (by norm_num) (by push_cast; linarith)
  exact ⟨c, hc, hlt.ne', hdouble⟩

/-- Twenty digits and the least double leave no room for more than two quotients. -/
theorem exponent_ge {s : ℕ} {e : ℤ} (hs : s < UInt64.size) (hlow : leastDouble ≤ s * 10 ^ e) :
    -344 ≤ e := by
  by_contra hlt
  have hdigits : (s : ℚ) < 10 ^ 20 := by
    have hsize : UInt64.size ≤ 10 ^ 20 := by decide
    exact_mod_cast hs.trans_le hsize
  have hscale : (10 : ℚ) ^ e ≤ 10 ^ (-344 : ℤ) := zpow_le_zpow_right₀ (by norm_num) (by omega)
  have hsum : (10 : ℚ) ^ 20 * 10 ^ (-344 : ℤ) = 10 ^ (-324 : ℤ) := by
    rw [← zpow_natCast, ← zpow_add₀ (by norm_num)]
    norm_num
  have hlt : (s : ℚ) * 10 ^ e < 10 ^ 20 * 10 ^ (-344 : ℤ) :=
    mul_lt_mul hdigits hscale (by positivity) (by positivity)
  linarith [le_leastDouble]

theorem div_pow_eq {e : ℤ} (he : e ≤ 0) (v : ℚ) : v / 10 ^ e.natAbs = v * 10 ^ e := by
  rw [div_eq_mul_inv, ← zpow_natCast, ← zpow_neg]
  congr 2
  omega

/-- The first of two quotients of a significand is far from the least double. -/
theorem first_quotient {s : ℕ} (hs : s < UInt64.size) (hpos : s ≠ 0) (ha : a.Finite)
    (htakes : a.Takes s) :
    ∃ b : Binary, b.Finite ∧ b.value ≤ 1 ∧ 56 / 81 * (s * 10 ^ (-308 : ℤ)) ≤ b.value ∧
      double .positive a / powerOfTen 308 = double .positive b := by
  obtain ⟨b, w, hb, hquotient, hle, hw, hdouble⟩ :=
    div_powerOfTen_takes le_rfl ha htakes (cast_le_of_lt_size hs)
  have hone : (1 : ℚ) ≤ s := by exact_mod_cast Nat.one_le_iff_ne_zero.mpr hpos
  have hleast := leastDouble_pos
  have hscale : (0 : ℚ) < 10 ^ (-308 : ℤ) := by positivity
  have hnear :=
    (htakes.near (htakes.four_le_m ha.toCanonical (four_leastDouble_le_one.trans hone))).2
  have hpower := div_pow_eq (e := -308) (by norm_num) a.value
  rw [show (-308 : ℤ).natAbs = 308 from rfl] at hpower
  rw [hpower] at hw
  have hfirst : 7 / 9 * (s * 10 ^ (-308 : ℤ)) ≤ w := by nlinarith
  have hm : 4 ≤ b.m := hquotient.four_le_m hb.toCanonical (by nlinarith [leastDouble_le])
  refine ⟨b, hb, hle, ?_, hdouble⟩
  linarith [(hquotient.near hm).2]

/-- Two quotients of a significand leave something if the exact result is no less than four thirds
    of the least double. -/
theorem applyExponent_ne_zero (fuel : ℕ) {s : ℕ} {e : ℤ} (he : e ≤ 0) (hs : s < UInt64.size)
    (ha : a.Finite) (htakes : a.Takes s) (hle : (s : ℚ) ≤ 10 ^ (-e))
    (hlow : 4 / 3 * leastDouble ≤ s * 10 ^ e) :
    ∃ c : Binary, c.Finite ∧ c.m ≠ 0 ∧
      applyExponent (fuel + 2) (double .positive a) e = some (double .positive c) := by
  have hleast := leastDouble_pos
  have hpos : s ≠ 0 := by
    rintro rfl
    rw [Nat.cast_zero, zero_mul] at hlow
    linarith
  have hone : (1 : ℚ) ≤ s := by exact_mod_cast Nat.one_le_iff_ne_zero.mpr hpos
  have hm : 4 ≤ a.m := htakes.four_le_m ha.toCanonical (four_leastDouble_le_one.trans hone)
  have hnear := (htakes.near hm).2
  have hscale : (0 : ℚ) < 10 ^ e := by positivity
  rw [applyExponent]
  split
  · next hsmall =>
    split
    · have hzero : e.natAbs = 0 := by omega
      refine ⟨a, ha, by omega, ?_⟩
      simp only [hzero, mul_powerOfTen_zero ha, isInf_double ha]
      rfl
    · have hten : (s : ℚ) ≤ 10 ^ e.natAbs := by
        rw [← zpow_natCast]
        refine hle.trans_eq (congrArg _ ?_)
        omega
      obtain ⟨c, hc, hne, hdouble⟩ := div_powerOfTen_ne_zero hsmall ha htakes hten (by
        rw [div_pow_eq he]
        nlinarith)
      exact ⟨c, hc, hne, by rw [hdouble]⟩
  · next hlarge =>
    have hge := exponent_ge hs (by linarith)
    rw [if_neg (fun hbeq => by have := eq_zero_of_beq ha hbeq; omega), if_neg (by omega)]
    obtain ⟨b, hb, hbone, hfirst, hdouble⟩ := first_quotient hs hpos ha htakes
    have hsecond : (10 : ℚ) ^ (-308 : ℤ) * 10 ^ (e + 308) = 10 ^ e := by
      rw [← zpow_add₀ (by norm_num)]
      congr 1
      omega
    have hrest : 4 / 7 * leastDouble < b.value / 10 ^ (e + 308).natAbs := by
      rw [div_pow_eq (by omega)]
      calc
        4 / 7 * leastDouble < 56 / 81 * (s * 10 ^ e) := by linarith
        _ = 56 / 81 * (s * 10 ^ (-308 : ℤ)) * 10 ^ (e + 308) := by rw [← hsecond]; ring
        _ ≤ b.value * 10 ^ (e + 308) := mul_le_mul_of_nonneg_right hfirst (by positivity)
    obtain ⟨c, hc, hne, hlast⟩ := div_powerOfTen_ne_zero (by omega) hb b.takes_value
      (hbone.trans (one_le_pow₀ (by norm_num))) hrest
    refine ⟨c, hc, hne, ?_⟩
    rw [hdouble, applyExponent, if_pos (by omega), if_neg (by omega), hlast]

/-! ## Positive numerals -/

/-- A small numeral that is written with no less than one and a half times the least double is read
    as a positive number. -/
theorem Numeral.Small.toNumber?_positive (h : n.Small) (hwf : n.Wf) (hnegative : n.negative = false)
    (hlow : 3 / 2 * leastDouble ≤ n.magnitude) :
    ∃ c : Binary, c.Finite ∧ c.m ≠ 0 ∧ n.toNumber? = some (.double (double .positive c)) := by
  obtain ⟨s, k, hs, hle, hmost, hnumber⟩ := h.exists_significand hwf
  have hpower := h.power
  have hleast := leastDouble_pos
  have hsignificand : (s : ℚ) ≤ 10 ^ (-(-(k : ℤ) + n.power)) := by
    rw [zpow_neg, ← one_div, le_div_iff₀ (by positivity)]
    exact hle.trans h.magnitude
  have hthirds : 4 / 3 * leastDouble ≤ s * 10 ^ (-(k : ℤ) + n.power) := by linarith
  obtain ⟨a, ha, htakes, hfloat⟩ := exists_toFloat hs
  obtain ⟨c, hc, hne, happly⟩ :=
    applyExponent_ne_zero 6 (by omega) hs ha htakes hsignificand hthirds
  have hbound := exponent_ge (e := -(k : ℤ) + n.power) hs (by linarith)
  have hlimit : ¬ exponentLimit < -n.power := by
    simp only [exponentLimit]
    omega
  refine ⟨c, hc, hne, ?_⟩
  rw [hnumber, scaled_eq s _ hpower, if_neg hlimit, hfloat, happly, hnegative]
  rfl

/-! ## Proportions -/

/-- Above the least double there is none below twice of it. -/
theorem le_low (hb : b.Canonical) (hm : b.m ≠ 0) (hne : b.m ≠ 1 ∨ b.q ≠ -1074) :
    3 / 2 * leastDouble ≤ b.low := by
  have htwo : 2 ≤ b.m := by
    rcases hb.normal with hnormal | hleast
    · omega
    · have := hne.resolve_right (not_not.mpr hleast)
      omega
  have hcast : (2 : ℚ) ≤ b.m := by exact_mod_cast htwo
  have hscale : leastDouble ≤ 2 ^ b.q := zpow_le_zpow_right₀ one_le_two hb.le_q
  have hpos := leastDouble_pos
  unfold Binary.low
  split <;> nlinarith

/-- The least double is read back as a positive number. -/
theorem toNumber?_leastDouble :
    ((Numeral.ofFloat .json (Float.ofBits 1)).toNumber?.map Number.toFloat).any (0.0 < ·) := by
  decide +kernel

/-- What is written of a positive proportion is read as a positive number. -/
theorem toNumber?_positive (hlow : 0.0 ≤ x) (hhigh : x ≤ 1.0) (hpos : 0.0 < x)
    (hy : (Numeral.ofFloat .json x).toNumber? = some (.double y)) : 0.0 < y := by
  obtain ⟨hfinite, hnegative, hle⟩ := finite_of_proportion hlow hhigh
  have hx := (unpack_of_isFinite hfinite).2
  have hdouble := double_ofFloat hfinite
  rw [← hdouble, zero_lt_double_iff hx] at hpos
  obtain ⟨hsign, hm⟩ := hpos
  by_cases hleast : (Binary.ofFloat x).m = 1 ∧ (Binary.ofFloat x).q = -1074
  · have hbits : x = Float.ofBits 1 := by
      rw [← hdouble, hsign, hx.toCanonical.eq_ofParts, hleast.1, hleast.2]
      rfl
    have hread := toNumber?_leastDouble
    rw [← hbits, hy] at hread
    exact of_decide_eq_true hread
  · have hnosign : signBit x = false := Bool.eq_false_iff.mpr fun hset => hm (hnegative hset)
    have htakes := takes_ofFloat .json x
    have hwritten : 3 / 2 * leastDouble ≤ (Numeral.ofFloat .json x).magnitude :=
      (le_low hx.toCanonical hm (not_and_or.mp hleast)).trans
        (htakes.low.elim le_of_lt fun heq => heq.2.le)
    obtain ⟨c, hc, hne, hnumber⟩ := (small_of_le_one hfinite hnosign hle).toNumber?_positive
      (wf_ofFloat _ _) (by rw [negative_ofFloat, hnosign]) hwritten
    rw [hy] at hnumber
    cases hnumber
    exact (zero_lt_double_iff hc).mpr ⟨rfl, hne⟩

/-- Neither zero is read as a positive number. -/
theorem toNumber?_zero (s : Sign) :
    ((Numeral.ofFloat .json (double s .zero)).toNumber?.map Number.toFloat).all fun y =>
      !(0.0 < y) := by
  cases s with
  | positive => decide
  | negative => decide

/-- **A proportion in writing is read as zero only if it is zero.** -/
theorem zero_lt_iff_of_toNumber? (hlow : 0.0 ≤ x) (hhigh : x ≤ 1.0)
    (hy : (Numeral.ofFloat .json x).toNumber? = some (.double y)) : 0.0 < y ↔ 0.0 < x := by
  refine ⟨fun hpos => ?_, fun hpos => toNumber?_positive hlow hhigh hpos hy⟩
  by_contra hzero
  obtain ⟨s, b, hb, hs, -, rfl⟩ := exists_of_proportion hlow hhigh
  have hm : b.m = 0 := by
    rw [zero_lt_double_iff hb, not_and_not_right] at hzero
    exact hs.elim hzero id
  have hread := toNumber?_zero s
  rw [← hb.toCanonical.eq_zero hm, hy] at hread
  exact absurd (decide_eq_true hpos) (by simpa [Number.toFloat] using hread)

end Roster.Decimal
