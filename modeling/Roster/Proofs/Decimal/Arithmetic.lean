import Roster.Proofs.Decimal.Rounding

/-!
# Sums, products, quotients and decimals

Each operation on doubles gives the double that the exact result rounds to. All of them come down to
`roundWithAccuracy_takes`, which wants to know of which number the bits are that it is given and
that there are enough of them: the exponent must not be above the one that the result will have. For
products this is so because the factors have all their bits, for quotients the dividend is shifted
until it is, and a sum, which is exact on the lesser of two scales, is shifted before it is rounded.
-/

namespace Roster.Decimal

open Float.Model (Format UnpackedFloat totalExponent)
open Float.Model.UnpackedFloat (Sign roundWithAccuracy divCore accuracyOfFraction decreaseExponent)

/-- The double that a number rounds to, as an operation gives it. -/
def RoundsTo (v : ℚ) (s : Sign) (u : UnpackedFloat) : Prop :=
  ∃ b : Binary, b.Canonical ∧ b.Takes v ∧ u = b.unpacked s

namespace Binary

/-- The double zero, as a magnitude. -/
def zero : Binary :=
  ofParts 0 (-1074)

theorem canonical_zero : zero.Canonical :=
  canonical_ofParts (by norm_num) le_rfl (.inr rfl)

theorem value_zero : zero.value = 0 := by
  simp [zero, ofParts, value]

theorem unpacked_of_eq_zero {b : Binary} (s : Sign) (h : b.m = 0) : b.unpacked s = .zero s :=
  dif_pos h

theorem unpacked_of_ne_zero {b : Binary} (s : Sign) (h : b.m ≠ 0) :
    b.unpacked s = .finite s b.m b.q (Nat.pos_of_ne_zero h) :=
  dif_neg h

theorem value_of_eq_zero {b : Binary} (h : b.m = 0) : b.value = 0 := by
  simp [value, h]

/-- The value says whether a double is zero, whatever its exponent. -/
theorem value_eq_zero_iff {b : Binary} : b.value = 0 ↔ b.m = 0 := by
  rw [value, mul_eq_zero, Nat.cast_eq_zero, or_iff_left (scale_pos _).ne']

/-- Zero has one canonical form. -/
theorem Canonical.eq_zero {b : Binary} (hb : b.Canonical) (h : b.m = 0) : b = .zero :=
  hb.eq_of_value_eq canonical_zero ((value_of_eq_zero h).trans value_zero.symm)

end Binary

variable {a b : Binary} {s t : Sign} {m n : ℕ} {e : ℤ}

theorem roundsTo_zero (s : Sign) : RoundsTo 0 s (.zero s) := by
  refine ⟨.zero, Binary.canonical_zero, ?_, rfl⟩
  have htakes := Binary.zero.takes_value
  rwa [Binary.value_zero] at htakes

/-- A number whose digits all fit is rounded to the nearest double, as nothing has been cut off
    it. -/
theorem roundsTo_exact (s : Sign) (he : e ≤ max (m.log2 + e - 52) (-1074)) :
    RoundsTo (m * 2 ^ e) s (roundWithAccuracy .binary64 s m e .exact) :=
  roundWithAccuracy_takes s (describes_exact m) (by rwa [targetExponent_eq])

/-! ## Products -/

/-- A product of doubles is the nearest double to the exact one. -/
theorem mul_roundsTo (ha : a.Canonical) (hb : b.Canonical) :
    RoundsTo (a.value * b.value) (s * t) (.mul .binary64 (a.unpacked s) (b.unpacked t)) := by
  by_cases hza : a.m = 0
  · rw [Binary.unpacked_of_eq_zero s hza, Binary.value_of_eq_zero hza, zero_mul]
    unfold Binary.unpacked
    split <;> exact roundsTo_zero _
  by_cases hzb : b.m = 0
  · rw [Binary.unpacked_of_eq_zero t hzb, Binary.value_of_eq_zero hzb, mul_zero,
      Binary.unpacked_of_ne_zero s hza]
    exact roundsTo_zero _
  rw [Binary.unpacked_of_ne_zero s hza, Binary.unpacked_of_ne_zero t hzb]
  have hvalue : a.value * b.value = (a.m * b.m : ℕ) * 2 ^ (a.q + b.q) := by
    rw [Binary.value, Binary.value, zpow_add₀ two_ne_zero]
    push_cast
    ring
  rw [hvalue]
  refine roundsTo_exact (s * t) ?_
  have hzero : a.m * b.m ≠ 0 := Nat.mul_ne_zero hza hzb
  -- One factor with all its bits is enough. If neither has them, the exponents add up to one that
  -- is below the least.
  have hbits : 2 ^ 52 ≤ a.m * b.m ∨ a.q = -1074 ∧ b.q = -1074 := by
    rcases ha.normal with hnormal | hleast
    · exact .inl (hnormal.trans (Nat.le_mul_of_pos_right _ (Nat.pos_of_ne_zero hzb)))
    · rcases hb.normal with hnormal | hleast'
      · exact .inl (hnormal.trans (Nat.le_mul_of_pos_left _ (Nat.pos_of_ne_zero hza)))
      · exact .inr ⟨hleast, hleast'⟩
  rcases hbits with hnormal | ⟨hqa, hqb⟩
  · have hlog : 52 ≤ (a.m * b.m).log2 := (Nat.le_log2 hzero).mpr hnormal
    omega
  · omega

/-! ## Quotients -/

/-- A quotient has at most one bit fewer than what the two numbers differ by. -/
theorem log2_le_log2_div (hn : n ≠ 0) (h : n ≤ m) : m.log2 ≤ (m / n).log2 + n.log2 + 1 := by
  have hm : m ≠ 0 := by omega
  rw [← Nat.lt_succ_iff, Nat.log2_lt hm]
  calc
    m < n * (m / n + 1) := Nat.lt_mul_div_succ m (Nat.pos_of_ne_zero hn)
    _ ≤ 2 ^ (n.log2 + 1) * 2 ^ ((m / n).log2 + 1) :=
      Nat.mul_le_mul Nat.lt_log2_self.le Nat.lt_log2_self
    _ = 2 ^ ((m / n).log2 + n.log2 + 1 + 1) := by
      rw [← pow_add]
      congr 1
      omega

theorem log2_shiftLeft (hm : m ≠ 0) (k : ℕ) : (m <<< k).log2 = m.log2 + k := by
  obtain ⟨hlow, hhigh⟩ := (Nat.log2_eq_iff hm).mp rfl
  rw [Nat.shiftLeft_eq, Nat.log2_eq_iff (by positivity)]
  constructor
  · rw [pow_add]
    exact Nat.mul_le_mul_right _ hlow
  · rw [show m.log2 + k + 1 = m.log2 + 1 + k by omega, pow_add]
    exact Nat.mul_lt_mul_of_pos_right hhigh (by positivity)

/-- The quotient has as many bits as the result needs. -/
theorem div_exponent_le {k : ℕ} {p d : ℤ} (hm : m ≠ 0) (hn : n ≠ 0)
    (hp : p = min d (max (m.log2 - n.log2 + d - 53) (-1074))) (hk : k = (d - p).toNat) :
    p ≤ max (((m <<< k) / n).log2 + p - 52) (-1074) := by
  have hlog := log2_shiftLeft hm k
  by_cases h : n ≤ m <<< k
  · have hle := log2_le_log2_div hn h
    omega
  -- The dividend could not be shifted any further than to the least exponent.
  · have hzero : m <<< k / n = 0 := Nat.div_eq_of_lt (not_le.mp h)
    have hle : (m <<< k).log2 ≤ n.log2 := by
      have hne : m <<< k ≠ 0 := by
        rw [Nat.shiftLeft_eq]
        positivity
      rw [Nat.le_log2 hn]
      exact (Nat.log2_self_le hne).trans (not_le.mp h).le
    rw [hzero, Nat.log2_zero]
    omega

/-- A quotient of magnitudes is the nearest double to the exact one, where the remainder says
    whether anything was cut off. -/
theorem div_finite_roundsTo (hm : 0 < m) (hn : 0 < n) (e f : ℤ) :
    RoundsTo (m / n * 2 ^ (e - f)) (s / t)
      (.div .binary64 (.finite s m e hm) (.finite t n f hn)) := by
  generalize hp : min (e - f) (max (m.log2 - n.log2 + (e - f) - 53) (-1074)) = p
  generalize hk : (e - f - p).toNat = k
  have hcore : divCore .binary64 m e n f =
      ((m <<< k) / n, p, accuracyOfFraction ((m <<< k) % n) n) := by
    have htarget : Format.binary64.targetExponent (totalExponent m e - totalExponent n f) =
        max (m.log2 - n.log2 + (e - f) - 53) (-1074) := by
      simp only [Format.targetExponent, totalExponent, Format.mantissaBits, Format.minExponent]
      norm_num
      omega
    rw [divCore, htarget, hp, hk]
  have hvalue : (m : ℚ) / n * 2 ^ (e - f) = (m <<< k : ℕ) / n * 2 ^ p := by
    have hshift : (2 : ℚ) ^ (e - f) = 2 ^ k * 2 ^ p := by
      rw [← zpow_natCast, ← zpow_add₀ two_ne_zero]
      congr 1
      omega
    rw [Nat.shiftLeft_eq, hshift]
    push_cast
    ring
  have hexponent := div_exponent_le hm.ne' hn.ne' hp.symm hk.symm
  rw [← targetExponent_eq] at hexponent
  rw [hvalue, UnpackedFloat.div, hcore]
  exact roundWithAccuracy_takes (s / t) (describes_quotient _ hn) hexponent

/-- A quotient of doubles is the nearest double to the exact one. -/
theorem div_roundsTo (hb : b.m ≠ 0) :
    RoundsTo (a.value / b.value) (s / t) (.div .binary64 (a.unpacked s) (b.unpacked t)) := by
  rw [Binary.unpacked_of_ne_zero t hb]
  by_cases hza : a.m = 0
  · rw [Binary.unpacked_of_eq_zero s hza, Binary.value_of_eq_zero hza, zero_div]
    exact roundsTo_zero _
  · rw [Binary.unpacked_of_ne_zero s hza]
    have hvalue : a.value / b.value = a.m / b.m * 2 ^ (a.q - b.q) := by
      rw [Binary.value, Binary.value, zpow_sub₀ two_ne_zero]
      field_simp
    rw [hvalue]
    exact div_finite_roundsTo _ _ _ _

/-! ## Sums -/

/-- A whole number of some power of two, however few or many bits it has. -/
theorem normalize_roundsTo (m : ℕ) (e : ℤ) :
    RoundsTo (m * 2 ^ e) .positive (.normalize .binary64 m e .positive) := by
  by_cases hzero : m = 0
  · subst hzero
    rw [Nat.cast_zero, zero_mul]
    exact roundsTo_zero _
  · have hcompare : compare (m : ℤ) 0 = .gt := Int.compare_eq_gt.mpr (by omega)
    -- the bits that are missing are zeros
    generalize hk : (e - max ((m.log2 : ℤ) + e - 52) (-1074)).toNat = k
    have hround : UnpackedFloat.normalize .binary64 m e .positive =
        roundWithAccuracy .binary64 .positive (m <<< k) (e - k) .exact := by
      simp only [UnpackedFloat.normalize, hcompare, UnpackedFloat.round, targetExponent_eq,
        Int.toNat_natCast, decreaseExponent, hk]
    have hvalue : (m : ℚ) * 2 ^ e = (m <<< k : ℕ) * 2 ^ (e - k : ℤ) := by
      rw [Nat.shiftLeft_eq, zpow_sub₀ two_ne_zero, zpow_natCast]
      push_cast
      field_simp
    rw [hround, hvalue]
    refine roundsTo_exact .positive ?_
    rw [log2_shiftLeft hzero]
    omega

/-- A significand may be written at a smaller exponent. -/
theorem shiftLeft_mul_scale {p : ℤ} (h : p ≤ e) :
    ((m <<< (e - p).toNat : ℕ) : ℚ) * 2 ^ p = m * 2 ^ e := by
  have hscale : (2 : ℚ) ^ e = 2 ^ (e - p).toNat * 2 ^ p := by
    rw [← zpow_natCast, ← zpow_add₀ two_ne_zero]
    congr 1
    omega
  rw [Nat.shiftLeft_eq, hscale]
  push_cast
  ring

/-- A sum of numbers that are not negative. The second may be a zero with a sign. -/
theorem add_roundsTo (ha : a.Canonical) (hb : b.Canonical) (hs : s = .positive ∨ b.m = 0) :
    RoundsTo (a.value + b.value) .positive
      (.add .binary64 (a.unpacked .positive) (b.unpacked s)) := by
  by_cases hzb : b.m = 0
  · rw [Binary.unpacked_of_eq_zero s hzb, Binary.value_of_eq_zero hzb, add_zero]
    have hsame : UnpackedFloat.add .binary64 (a.unpacked .positive) (.zero s) =
        a.unpacked .positive := by
      unfold Binary.unpacked
      split
      · cases s <;> rfl
      · rfl
    exact ⟨a, ha, a.takes_value, hsame⟩
  obtain rfl := hs.resolve_right hzb
  by_cases hza : a.m = 0
  · rw [Binary.unpacked_of_eq_zero _ hza, Binary.value_of_eq_zero hza, zero_add]
    refine ⟨b, hb, b.takes_value, ?_⟩
    rw [Binary.unpacked_of_ne_zero _ hzb]
    rfl
  rw [Binary.unpacked_of_ne_zero _ hza, Binary.unpacked_of_ne_zero _ hzb]
  -- Both are shifted to the lesser exponent, where nothing is lost.
  have hvalue : a.value + b.value = ((a.m <<< (a.q - min a.q b.q).toNat +
      b.m <<< (b.q - min a.q b.q).toNat : ℕ) : ℚ) * 2 ^ min a.q b.q := by
    rw [Nat.cast_add, add_mul, shiftLeft_mul_scale (min_le_left _ _),
      shiftLeft_mul_scale (min_le_right _ _), Binary.value, Binary.value]
  rw [hvalue]
  exact normalize_roundsTo _ _

/-- A difference that is not negative. -/
theorem sub_roundsTo (ha : a.Canonical) (h : b.value ≤ a.value) :
    RoundsTo (a.value - b.value) .positive
      (.sub .binary64 (a.unpacked .positive) (b.unpacked .positive)) := by
  by_cases hza : a.m = 0
  · have hzb : b.m = 0 := by
      rw [Binary.value_of_eq_zero hza] at h
      exact Binary.value_eq_zero_iff.mp (le_antisymm h b.value_nonneg)
    rw [Binary.unpacked_of_eq_zero _ hza, Binary.unpacked_of_eq_zero _ hzb,
      Binary.value_of_eq_zero hza, Binary.value_of_eq_zero hzb, sub_zero]
    exact roundsTo_zero _
  by_cases hzb : b.m = 0
  · rw [Binary.unpacked_of_eq_zero _ hzb, Binary.value_of_eq_zero hzb, sub_zero]
    refine ⟨a, ha, a.takes_value, ?_⟩
    rw [Binary.unpacked_of_ne_zero _ hza]
    rfl
  rw [Binary.unpacked_of_ne_zero _ hza, Binary.unpacked_of_ne_zero _ hzb]
  generalize hA : a.m <<< (a.q - min a.q b.q).toNat = A
  generalize hB : b.m <<< (b.q - min a.q b.q).toNat = B
  have hvalueA : (A : ℚ) * 2 ^ min a.q b.q = a.value := by
    rw [← hA, shiftLeft_mul_scale (min_le_left _ _), Binary.value]
  have hvalueB : (B : ℚ) * 2 ^ min a.q b.q = b.value := by
    rw [← hB, shiftLeft_mul_scale (min_le_right _ _), Binary.value]
  -- On the lesser scale the order can be seen in the significands, so that their difference is one.
  have hle : B ≤ A := by
    rw [← hvalueA, ← hvalueB] at h
    exact_mod_cast le_of_mul_le_mul_right h (Binary.scale_pos _)
  have hsub : UnpackedFloat.sub .binary64 (.finite .positive a.m a.q (Nat.pos_of_ne_zero hza))
      (.finite .positive b.m b.q (Nat.pos_of_ne_zero hzb)) =
        .normalize .binary64 ((A - B : ℕ) : ℤ) (min a.q b.q) .positive := by
    rw [Nat.cast_sub hle, ← hA, ← hB]
    rfl
  rw [hsub, ← hvalueA, ← hvalueB, ← sub_mul, ← Nat.cast_sub hle]
  exact normalize_roundsTo _ _

/-! ## Whole numbers and decimals -/

/-- A natural number becomes the double nearest to it. -/
theorem ofNat_roundsTo (n : ℕ) : RoundsTo n .positive (.ofNat .binary64 n) := by
  have hnormalize := normalize_roundsTo n 0
  rwa [zpow_zero, mul_one] at hnormalize

/-- A number in decimals, whose power of ten is not out of all bounds. -/
theorem ofScientific_roundsTo (hm : m ≠ 0) (hhigh : e ≤ 2048) (hlow : -(2048 + m.log2) ≤ e) :
    RoundsTo (m * 10 ^ e) .positive (.ofScientific .binary64 m e) := by
  have hbits : (2 : ℤ) ^ Format.binary64.exponentBits = 2048 := by norm_num
  have hten : 0 < 10 ^ e.natAbs := by positivity
  rw [UnpackedFloat.ofScientific, dif_neg hm, if_neg (by omega), if_neg (by omega)]
  split
  · next hpos =>
    have habs : e.toNat = e.natAbs := by omega
    -- The product is exact, and 53 zeros are put behind it so that there are enough bits.
    have hvalue : (m : ℚ) * (10 : ℚ) ^ e = (m <<< 53 * 10 ^ e.natAbs : ℕ) * 2 ^ (-53 + 0 : ℤ) := by
      have he : (10 : ℚ) ^ e = 10 ^ e.natAbs := by
        rw [← zpow_natCast]
        congr 1
        omega
      rw [Nat.shiftLeft_eq, he]
      push_cast
      norm_num
      ring
    simp only [UnpackedFloat.mul, habs]
    rw [hvalue]
    refine roundsTo_exact .positive ?_
    have hlog : 53 ≤ (m <<< 53 * 10 ^ e.natAbs).log2 := by
      rw [Nat.le_log2 (by rw [Nat.shiftLeft_eq]; positivity), Nat.shiftLeft_eq]
      calc
        2 ^ 53 = 1 * 2 ^ 53 * 1 := by norm_num
        _ ≤ m * 2 ^ 53 * 10 ^ e.natAbs :=
          Nat.mul_le_mul (Nat.mul_le_mul_right _ (Nat.pos_of_ne_zero hm)) hten
    omega
  · next hneg =>
    have habs : (-e).toNat = e.natAbs := by omega
    have hvalue : (m : ℚ) * (10 : ℚ) ^ e = m / (10 ^ e.natAbs : ℕ) * 2 ^ (0 - 0 : ℤ) := by
      have he : (10 : ℚ) ^ e = (10 ^ e.natAbs)⁻¹ := by
        rw [← zpow_natCast, ← zpow_neg]
        congr 1
        omega
      rw [he]
      push_cast
      norm_num
      ring
    rw [hvalue]
    simp only [habs]
    exact div_finite_roundsTo _ _ _ _

end Roster.Decimal
