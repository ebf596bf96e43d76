import Roster.Proofs.Decimal.Double

/-!
# Calculating with doubles

`Rounded v s x` says that a calculation with the exact result `v` has given `x`. With that,
calculations are followed step by step: each step takes the magnitudes of its arguments and gives
one that is nearest to what they make.

Two doubles that are not negative compare as their magnitudes do (`double_le_iff`), which together
with `Binary.Takes.mono` is what bounds of results come from.
-/

namespace Roster.Decimal

open Float.Model (Format UnpackedFloat)
open Float.Model.UnpackedFloat (Sign)

variable {a b : Binary} {s t : Sign} {v : ℚ} {x : Float}

/-- The double that a number rounds to. -/
def Rounded (v : ℚ) (s : Sign) (x : Float) : Prop :=
  ∃ b : Binary, b.Canonical ∧ b.Takes v ∧ x = double s b

/-- What an operation on numbers rounds to is what it is as a double. -/
theorem rounded_of_roundsTo {u : UnpackedFloat} (h : RoundsTo v s u) :
    Rounded v s (.ofModel (.pack u)) := by
  obtain ⟨b, hb, htakes, rfl⟩ := h
  exact ⟨b, hb, htakes, rfl⟩

/-! ## The operations -/

/-- A product of doubles is rounded from the exact one. -/
theorem rounded_mul (ha : a.Finite) (hb : b.Finite) :
    Rounded (a.value * b.value) (s * t) (double s a * double t b) := by
  change Rounded _ _ (.ofModel (.pack (.mul .binary64 (double s a).toModel.unpack
    (double t b).toModel.unpack)))
  rw [unpack_double ha, unpack_double hb]
  exact rounded_of_roundsTo (mul_roundsTo ha.toCanonical hb.toCanonical)

/-- A quotient of doubles is rounded from the exact one. -/
theorem rounded_div (ha : a.Finite) (hb : b.Finite) (hne : b.m ≠ 0) :
    Rounded (a.value / b.value) (s / t) (double s a / double t b) := by
  change Rounded _ _ (.ofModel (.pack (.div .binary64 (double s a).toModel.unpack
    (double t b).toModel.unpack)))
  rw [unpack_double ha, unpack_double hb]
  exact rounded_of_roundsTo (div_roundsTo hne)

/-- A sum is rounded from the exact one, if neither is negative. -/
theorem rounded_add (ha : a.Finite) (hb : b.Finite) (hs : s = .positive ∨ b.m = 0) :
    Rounded (a.value + b.value) .positive (double .positive a + double s b) := by
  change Rounded _ _ (.ofModel (.pack (.add .binary64 (double .positive a).toModel.unpack
    (double s b).toModel.unpack)))
  rw [unpack_double ha, unpack_double hb]
  exact rounded_of_roundsTo (add_roundsTo ha.toCanonical hb.toCanonical hs)

/-- A difference is rounded from the exact one, if it is not negative. -/
theorem rounded_sub (ha : a.Finite) (hb : b.Finite) (h : b.value ≤ a.value) :
    Rounded (a.value - b.value) .positive (double .positive a - double .positive b) := by
  change Rounded _ _ (.ofModel (.pack (.sub .binary64 (double .positive a).toModel.unpack
    (double .positive b).toModel.unpack)))
  rw [unpack_double ha, unpack_double hb]
  exact rounded_of_roundsTo (sub_roundsTo ha.toCanonical h)

/-- An integer of 64 bits is rounded when it becomes a double. -/
theorem rounded_toFloat (n : UInt64) : Rounded n.toNat .positive n.toFloat :=
  rounded_of_roundsTo (ofNat_roundsTo n.toNat)

theorem neg_double (h : b.Finite) (s : Sign) : -double s b = double (-s) b := by
  change Float.ofModel (.pack (double s b).toModel.unpack.neg) = _
  rw [unpack_double h, double]
  congr 2
  unfold Binary.unpacked
  split <;> rfl

theorem isFinite_neg (x : Float) : (-x).isFinite = x.isFinite := by
  by_cases hfinite : x.isFinite
  · obtain ⟨-, hb⟩ := unpack_of_isFinite hfinite
    rw [← double_ofFloat hfinite, neg_double hb, isFinite_double hb, isFinite_double hb]
  · change (UnpackedFloat.unpack .binary64
      (UnpackedFloat.pack .binary64 x.toModel.unpack.neg)).isFinite =
      x.toModel.unpack.isFinite
    change ¬ x.toModel.unpack.isFinite at hfinite
    cases hx : x.toModel.unpack with
    | notANumber => exact congrArg UnpackedFloat.isFinite unpack_packedNaN
    | infinity s =>
      have hunpack := congrArg UnpackedFloat.isFinite (unpack_packedInfinity (-s))
      exact hunpack
    | zero s => exact absurd rfl (hx ▸ hfinite)
    | finite s m e hm => exact absurd rfl (hx ▸ hfinite)

/-! ## Order -/

theorem double_zero : double .positive .zero = 0.0 :=
  rfl

theorem finite_zero : Binary.zero.Finite :=
  ⟨Binary.canonical_zero, by simp [Binary.zero, Binary.ofParts]⟩

/-- Doubles that are not negative compare as their magnitudes do. -/
theorem Binary.compare_unpacked (ha : a.Canonical) (hb : b.Canonical) :
    (a.unpacked .positive).compare (b.unpacked .positive) = some (compare a.value b.value) := by
  by_cases hza : a.m = 0
  · rw [unpacked_of_eq_zero _ hza, value_of_eq_zero hza]
    by_cases hzb : b.m = 0
    · rw [unpacked_of_eq_zero _ hzb, value_of_eq_zero hzb, compare_eq_iff_eq.mpr rfl]
      rfl
    · have hpos : 0 < b.value := b.value_nonneg.lt_of_ne' (mt value_eq_zero_iff.mp hzb)
      rw [unpacked_of_ne_zero _ hzb, compare_lt_iff_lt.mpr hpos]
      rfl
  by_cases hzb : b.m = 0
  · have hpos : 0 < a.value := a.value_nonneg.lt_of_ne' (mt value_eq_zero_iff.mp hza)
    rw [unpacked_of_eq_zero _ hzb, value_of_eq_zero hzb, unpacked_of_ne_zero _ hza,
      compare_gt_iff_gt.mpr hpos]
    rfl
  rw [unpacked_of_ne_zero _ hza, unpacked_of_ne_zero _ hzb]
  change some ((compare a.q b.q).then (compare a.m b.m)) = _
  rcases lt_trichotomy a.q b.q with hq | hq | hq
  · rw [compare_lt_iff_lt.mpr hq, compare_lt_iff_lt.mpr (ha.value_lt hb hq)]
    rfl
  · -- with one exponent the significands decide
    have hscale := scale_pos b.q
    rw [compare_eq_iff_eq.mpr hq, Ordering.eq_then, value, value, hq]
    rcases lt_trichotomy a.m b.m with hm | hm | hm
    · have hcast : (a.m : ℚ) < b.m := by exact_mod_cast hm
      rw [compare_lt_iff_lt.mpr hm, compare_lt_iff_lt.mpr (mul_lt_mul_of_pos_right hcast hscale)]
    · rw [compare_eq_iff_eq.mpr hm, compare_eq_iff_eq.mpr (by rw [hm])]
    · have hcast : (b.m : ℚ) < a.m := by exact_mod_cast hm
      rw [compare_gt_iff_gt.mpr hm, compare_gt_iff_gt.mpr (mul_lt_mul_of_pos_right hcast hscale)]
  · rw [compare_gt_iff_gt.mpr hq, compare_gt_iff_gt.mpr (hb.value_lt ha hq)]
    rfl

/-- With the other sign they compare the other way round. -/
theorem Binary.compare_unpacked_negative (a b : Binary) :
    (a.unpacked .negative).compare (b.unpacked .negative) =
      (b.unpacked .positive).compare (a.unpacked .positive) := by
  by_cases hza : a.m = 0
  · rw [unpacked_of_eq_zero _ hza, unpacked_of_eq_zero _ hza]
    unfold unpacked
    split <;> rfl
  by_cases hzb : b.m = 0
  · rw [unpacked_of_eq_zero _ hzb, unpacked_of_eq_zero _ hzb, unpacked_of_ne_zero _ hza,
      unpacked_of_ne_zero _ hza]
    rfl
  rw [unpacked_of_ne_zero _ hza, unpacked_of_ne_zero _ hza, unpacked_of_ne_zero _ hzb,
    unpacked_of_ne_zero _ hzb]
  change some ((compare a.q b.q).then (compare a.m b.m)).swap =
    some ((compare b.q a.q).then (compare b.m a.m))
  rw [Ordering.swap_then, ← Std.OrientedCmp.eq_swap, ← Std.OrientedCmp.eq_swap]

theorem le_iff (x y : Float) : x ≤ y ↔ x.toModel.unpack.le y.toModel.unpack := by
  change decide (x.toModel ≤ y.toModel) = true ↔ _
  rw [decide_eq_true_iff]
  exact Iff.rfl

/-- Positive doubles are ordered as their values are. -/
theorem double_le_iff (ha : a.Finite) (hb : b.Finite) :
    double .positive a ≤ double .positive b ↔ a.value ≤ b.value := by
  rw [le_iff, unpack_double ha, unpack_double hb, UnpackedFloat.le,
    Binary.compare_unpacked ha.toCanonical hb.toCanonical]
  change (compare a.value b.value).isLE ↔ _
  exact Ordering.isLE_iff_ne_gt.trans compare_le_iff_le

theorem lt_iff (x y : Float) : x < y ↔ x.toModel.unpack.lt y.toModel.unpack := by
  change decide (x.toModel < y.toModel) = true ↔ _
  rw [decide_eq_true_iff]
  exact Iff.rfl

/-- One positive double is below another one as their values are. -/
theorem double_lt_iff (ha : a.Finite) (hb : b.Finite) :
    double .positive a < double .positive b ↔ a.value < b.value := by
  rw [lt_iff, unpack_double ha, unpack_double hb, UnpackedFloat.lt,
    Binary.compare_unpacked ha.toCanonical hb.toCanonical, beq_iff_eq, Option.some.injEq,
    compare_lt_iff_lt]

/-- Whatever is greater than a number that is not negative is greater than zero. -/
theorem zero_lt_of_lt (ha : a.Finite) {y : Float} (h : double .positive a < y) :
    0.0 < y := by
  rw [lt_iff, unpack_double ha] at h
  rw [← double_zero, lt_iff, unpack_double finite_zero, Binary.unpacked_of_eq_zero _ rfl]
  unfold Binary.unpacked at h
  cases hy : y.toModel.unpack with
  | notANumber =>
    rw [hy] at h
    split at h <;> cases h
  | infinity t =>
    rw [hy] at h
    cases t with
    | positive => rfl
    | negative => split at h <;> cases h
  | zero t =>
    rw [hy] at h
    split at h <;> cases h
  | finite t m e hpos =>
    rw [hy] at h
    cases t with
    | positive => rfl
    | negative => split at h <;> cases h

/-- A double is positive by its sign, unless it is a zero. -/
theorem zero_lt_double_iff (hb : b.Finite) :
    0.0 < double s b ↔ s = .positive ∧ b.m ≠ 0 := by
  rw [← double_zero, lt_iff, unpack_double finite_zero, unpack_double hb,
    Binary.unpacked_of_eq_zero _ rfl]
  by_cases hzero : b.m = 0
  · rw [Binary.unpacked_of_eq_zero _ hzero]
    exact iff_of_false Bool.false_ne_true fun h => h.2 hzero
  · rw [Binary.unpacked_of_ne_zero _ hzero]
    cases s with
    | positive => exact iff_of_true rfl ⟨rfl, hzero⟩
    | negative => exact iff_of_false Bool.false_ne_true fun h => by cases h.1

/-- A double is finite if it is a number and no infinity. -/
theorem isFinite_of_unpack (hnan : x.toModel.unpack ≠ .notANumber)
    (hinf : ∀ s, x.toModel.unpack ≠ .infinity s) : x.isFinite := by
  change x.toModel.unpack.isFinite
  cases hu : x.toModel.unpack with
  | notANumber => exact absurd hu hnan
  | infinity s => exact absurd hu (hinf s)
  | zero s => rfl
  | finite s m e hpos => rfl

/-- What lies between finite doubles is finite. -/
theorem isFinite_of_le_of_le (ha : a.Finite) (hb : b.Finite) (hlow : double s a ≤ x)
    (hhigh : x ≤ double t b) :
    x.isFinite := by
  rw [le_iff, unpack_double ha, Binary.unpacked] at hlow
  rw [le_iff, unpack_double hb, Binary.unpacked] at hhigh
  apply isFinite_of_unpack
  · intro hu
    rw [hu] at hlow
    split at hlow <;> cases hlow
  · intro sign hu
    rw [hu] at hlow hhigh
    cases sign with
    | positive => split at hhigh <;> cases hhigh
    | negative => split at hlow <;> cases hlow

/-- Whatever lies between zero and a double has no greater magnitude. With a sign it is zero. -/
theorem finite_of_between (hb : b.Finite) (hlow : 0.0 ≤ x) (hhigh : x ≤ double .positive b) :
    x.isFinite ∧ (signBit x → (Binary.ofFloat x).m = 0) ∧ (Binary.ofFloat x).value ≤ b.value := by
  have hfinite : x.isFinite := isFinite_of_le_of_le finite_zero hb (double_zero.symm ▸ hlow) hhigh
  obtain ⟨hunpack, hx⟩ := unpack_of_isFinite hfinite
  have hnegative : signBit x → (Binary.ofFloat x).m = 0 := by
    intro hsign
    by_contra hne
    rw [← double_zero, le_iff, unpack_double finite_zero, Binary.unpacked_of_eq_zero _ rfl,
      hunpack, sign, if_pos hsign, Binary.unpacked_of_ne_zero _ hne] at hlow
    cases hlow
  refine ⟨hfinite, hnegative, ?_⟩
  by_cases hsign : signBit x
  · rw [Binary.value_of_eq_zero (hnegative hsign)]
    exact b.value_nonneg
  · have hdouble := double_ofFloat hfinite
    rw [sign, if_neg hsign] at hdouble
    rwa [← hdouble, double_le_iff hx hb] at hhigh

/-- The same below zero. -/
theorem finite_of_between_neg (hb : b.Finite) (hlow : -double .positive b ≤ x) (hhigh : x ≤ 0.0) :
    x.isFinite ∧ (signBit x = false → (Binary.ofFloat x).m = 0) ∧
      (Binary.ofFloat x).value ≤ b.value := by
  rw [neg_double hb] at hlow
  have hfinite : x.isFinite := isFinite_of_le_of_le hb finite_zero hlow (double_zero.symm ▸ hhigh)
  obtain ⟨hunpack, hx⟩ := unpack_of_isFinite hfinite
  have hpositive : signBit x = false → (Binary.ofFloat x).m = 0 := by
    intro hsign
    by_contra hne
    rw [← double_zero, le_iff, unpack_double finite_zero, Binary.unpacked_of_eq_zero _ rfl,
      hunpack, sign, if_neg (by simp [hsign]), Binary.unpacked_of_ne_zero _ hne] at hhigh
    cases hhigh
  refine ⟨hfinite, hpositive, ?_⟩
  cases hsign : signBit x with
  | false =>
    rw [Binary.value_of_eq_zero (hpositive hsign)]
    exact b.value_nonneg
  | true =>
    rw [le_iff, unpack_double hb, hunpack, sign, if_pos hsign] at hlow
    change (b.unpacked .negative).le _ at hlow
    rw [UnpackedFloat.le, Binary.compare_unpacked_negative,
      Binary.compare_unpacked hx.toCanonical hb.toCanonical] at hlow
    exact compare_le_iff_le.mp (Ordering.isLE_iff_ne_gt.mp hlow)

/-- A finite double that is not less than zero has no sign, unless it is zero. -/
theorem sign_of_not_lt (hfinite : x.isFinite) (h : ¬ x < 0.0) :
    sign x = .positive ∨ (Binary.ofFloat x).m = 0 := by
  rw [← double_zero, lt_iff, (unpack_of_isFinite hfinite).1, unpack_double finite_zero,
    Binary.unpacked_of_eq_zero .positive rfl] at h
  by_cases hzero : (Binary.ofFloat x).m = 0
  · exact .inr hzero
  · rw [Binary.unpacked_of_ne_zero _ hzero] at h
    cases hsign : sign x with
    | positive => exact .inl rfl
    | negative =>
      rw [hsign] at h
      exact absurd rfl h

theorem le_of_lt_double {y : Float} (h : x < y) : x ≤ y := by
  rw [lt_iff, UnpackedFloat.lt, beq_iff_eq] at h
  rw [le_iff, UnpackedFloat.le, h]
  rfl

theorem beq_self_of_isFinite (h : x.isFinite) : x == x := by
  change x.toModel.unpack.beq x.toModel.unpack
  rw [(unpack_of_isFinite h).1]
  unfold Binary.unpacked
  split
  · rfl
  · cases sign x <;> simp [UnpackedFloat.beq, UnpackedFloat.compare]

/-! ## Decimals -/

theorem Rounded.eq_double (h : Rounded b.value s x) (hb : b.Canonical) : x = double s b := by
  obtain ⟨a, ha, htakes, rfl⟩ := h
  rw [htakes.unique b.takes_value ha hb]

/-- A natural number below `2 ^ 53` is a double. -/
theorem exists_value_eq {n : ℕ} (hn : n < 2 ^ 53) : ∃ b : Binary, b.Finite ∧ b.value = n := by
  by_cases hzero : n = 0
  · refine ⟨.zero, ⟨Binary.canonical_zero, by simp [Binary.zero, Binary.ofParts]⟩, ?_⟩
    rw [Binary.value_zero, hzero, Nat.cast_zero]
  · have hlog : n.log2 < 53 := (Nat.log2_lt hzero).mpr hn
    have hshift := log2_shiftLeft hzero (52 - n.log2)
    have hne : n <<< (52 - n.log2) ≠ 0 := by
      rw [Nat.shiftLeft_eq]
      positivity
    have hbits : n <<< (52 - n.log2) < 2 ^ 53 ∧ 2 ^ 52 ≤ n <<< (52 - n.log2) := by
      rw [← Nat.log2_lt hne, ← Nat.le_log2 hne]
      omega
    refine ⟨.ofParts (n <<< (52 - n.log2)) (n.log2 - 52),
      ⟨Binary.canonical_ofParts hbits.1 (by omega) (.inl hbits.2), ?_⟩, ?_⟩
    · change (n.log2 : ℤ) - 52 ≤ 971
      omega
    · change ((n <<< (52 - n.log2) : ℕ) : ℚ) * 2 ^ ((n.log2 : ℤ) - 52) = n
      rw [Nat.shiftLeft_eq, Nat.cast_mul, Nat.cast_pow, Nat.cast_ofNat, mul_assoc, ← zpow_natCast,
        ← zpow_add₀ two_ne_zero, show ((52 - n.log2 : ℕ) : ℤ) + ((n.log2 : ℤ) - 52) = 0 by omega,
        zpow_zero, mul_one]

/-- A whole number of 53 bits is a double as it is. -/
theorem exists_toFloat_eq {n : ℕ} (hn : n < 2 ^ 53) :
    ∃ b : Binary, b.Finite ∧ b.value = n ∧ n.toUInt64.toFloat = double .positive b := by
  obtain ⟨b, hb, hvalue⟩ := exists_value_eq hn
  have hsmall : n.toUInt64.toNat = n := by
    simp
    omega
  have hrounded := rounded_toFloat n.toUInt64
  rw [hsmall, ← hvalue] at hrounded
  exact ⟨b, hb, hvalue, hrounded.eq_double hb.toCanonical⟩

/-- The table of powers of ten is right. -/
theorem exactPowers : ∀ e : Fin 23,
    (Float.exactlyRepresentablePowersOfTen[e]).isFinite ∧
      signBit Float.exactlyRepresentablePowersOfTen[e] = false ∧
      (Binary.ofFloat Float.exactlyRepresentablePowersOfTen[e]).m *
          2 ^ (Binary.ofFloat Float.exactlyRepresentablePowersOfTen[e]).q.toNat =
        10 ^ (e : ℕ) *
          2 ^ (-(Binary.ofFloat Float.exactlyRepresentablePowersOfTen[e]).q).toNat := by
  decide

/-- Every power of ten in the table is exact. -/
theorem exists_exactPower {e : ℕ} (he : e < Float.exactlyRepresentablePowersOfTen.size) :
    ∃ b : Binary, b.Finite ∧ b.value = 10 ^ e ∧
      Float.exactlyRepresentablePowersOfTen[e] = double .positive b := by
  obtain ⟨hfinite, hsign, hvalue⟩ := exactPowers ⟨e, he⟩
  refine ⟨_, (unpack_of_isFinite hfinite).2, ?_, ?_⟩
  · exact_mod_cast Binary.value_eq_iff.mpr hvalue
  · have hdouble := double_ofFloat hfinite
    rw [sign, hsign] at hdouble
    exact hdouble.symm

/-- **A decimal becomes the double that it rounds to**, provided that its power of ten is not
    out of all bounds. -/
theorem rounded_ofScientific {m e : ℕ} {negative : Bool} (hm : m ≠ 0) (hhigh : e ≤ 2048 ∨ negative)
    (hlow : negative → e ≤ 2048 + m.log2) :
    Rounded (m * 10 ^ (if negative then -e else e : ℤ)) .positive
      (Float.ofScientific m negative e) := by
  by_cases hfast : m < 2 ^ 53 ∧ e ≤ 22
  · obtain ⟨hlt, hle⟩ := hfast
    have hindex : e < Float.exactlyRepresentablePowersOfTen.size := Nat.lt_succ_of_le hle
    obtain ⟨p, hp, hvalue, hpower⟩ := exists_exactPower hindex
    obtain ⟨a, ha, hn, hfloat⟩ := exists_toFloat_eq hlt
    rw [Float.ofScientific, dif_pos ⟨hlt, hle⟩]
    dsimp only
    rw [hpower, hfloat]
    cases negative with
    | false =>
      have hmul : Rounded _ .positive (double .positive a * double .positive p) := rounded_mul ha hp
      rw [hn, hvalue] at hmul
      simpa using hmul
    | true =>
      have hne : p.m ≠ 0 := by
        rw [ne_eq, ← Binary.value_eq_zero_iff, hvalue]
        positivity
      have hdiv : Rounded _ .positive (double .positive a / double .positive p) :=
        rounded_div ha hp hne
      rw [hn, hvalue] at hdiv
      simpa [div_eq_mul_inv] using hdiv
  · rw [Float.ofScientific, dif_neg hfast]
    cases negative with
    | false =>
      have he : (e : ℤ) ≤ 2048 := by exact_mod_cast hhigh.resolve_right nofun
      exact rounded_of_roundsTo (ofScientific_roundsTo hm he (by omega))
    | true =>
      have he : (Int.negOfNat e) = -(e : ℤ) := Int.negOfNat_eq
      refine rounded_of_roundsTo ?_
      rw [if_pos rfl, if_pos rfl, he]
      exact ofScientific_roundsTo hm (by omega) (by have := hlow rfl; omega)

/-- Digits with an exponent within the limits are rounded to the nearest double. -/
theorem rounded_decimal {n : ℕ} {e : ℤ} (hn : n ≠ 0) (hhigh : e ≤ 2048)
    (hlow : -e ≤ 2048 + n.log2) :
    Rounded (n * 10 ^ e) .positive (Float.ofScientific n (e < 0) e.natAbs) := by
  have hexponent : (if decide (e < 0) then -e.natAbs else e.natAbs : ℤ) = e := by
    by_cases hneg : e < 0
    · rw [if_pos (decide_eq_true hneg)]
      omega
    · rw [if_neg (by simpa using hneg)]
      omega
  have hrounded : Rounded
      (n * 10 ^ (if decide (e < 0) then -e.natAbs else e.natAbs : ℤ)) .positive
      (Float.ofScientific n (decide (e < 0)) e.natAbs) := by
    refine rounded_ofScientific hn ?_ fun _ => by omega
    by_cases hneg : e < 0
    · exact .inr (decide_eq_true hneg)
    · exact .inl (by omega)
  rwa [hexponent] at hrounded

end Roster.Decimal
