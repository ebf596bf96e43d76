import Mathlib.Data.Prod.Lex
import Roster.Proofs.Decimal.Comparison
import Roster.Proofs.Decimal.Range

/-!
# Calculating in order

The comparison of doubles is an order on all that are numbers, infinities included: each has a place
(`UnpackedFloat.place`), and one is at most another exactly if its place is (`le_iff_place`). So `≤`
can be chained, whatever the doubles are.

Of the calculations it is said here that they keep this order as long as nothing is negative. While
the numbers are finite that is the monotony of rounding, and a result that is too large is infinite,
which is beyond everything. So what remains is the one product that has no order at all, that of
zero and infinity. It is excluded where both factors are finite (`mul_le_mul_of_isFinite`) or both
are positive (`mul_le_mul_of_pos`).
-/

namespace Roster.Decimal

open Float.Model (UnpackedFloat)
open Float.Model.UnpackedFloat (Sign)

variable {a b : Binary} {s t : Sign} {u v : UnpackedFloat} {q r : ℚ} {x x' y y' z : Float}

/-! ## The order -/

/-- Where a number stands: by its kind first, and among finite ones by the exponent and the
    significand. What is no number has no place of its own. -/
def place : UnpackedFloat → ℤ ×ₗ ℤ ×ₗ ℤ
  | .notANumber => toLex (0, toLex (0, 0))
  | .zero _ => toLex (0, toLex (0, 0))
  | .infinity .positive => toLex (2, toLex (0, 0))
  | .infinity .negative => toLex (-2, toLex (0, 0))
  | .finite .positive m e _ => toLex (1, toLex (e, (m : ℤ)))
  | .finite .negative m e _ => toLex (-1, toLex (-e, -(m : ℤ)))

theorem isLE_then_compare {e f : ℤ} {m n : ℕ} :
    ((compare e f).then (compare m n)).isLE ↔ e < f ∨ e = f ∧ m ≤ n := by
  rcases lt_trichotomy e f with h | h | h
  · simp [compare_lt_iff_lt.mpr h, h]
  · simp [h, Nat.isLE_compare]
  · simp [compare_gt_iff_gt.mpr h, h.not_gt, h.ne']

/-- Less or the same is what both are numbers and stand in order. -/
theorem le_unpacked_iff (u v : UnpackedFloat) :
    u.le v ↔ u ≠ .notANumber ∧ v ≠ .notANumber ∧ place u ≤ place v := by
  unfold UnpackedFloat.le
  cases u with
  | notANumber => cases v <;> simp [UnpackedFloat.compare]
  | infinity s => cases v with
    | notANumber => cases s <;> simp [UnpackedFloat.compare]
    | infinity t =>
      cases s <;> cases t <;> simp [UnpackedFloat.compare, place, compare, Prod.Lex.toLex_le_toLex]
    | zero t => cases s <;> simp [UnpackedFloat.compare, place, Prod.Lex.toLex_le_toLex]
    | finite t n f hn =>
      cases s <;> cases t <;> simp [UnpackedFloat.compare, place, Prod.Lex.toLex_le_toLex]
  | zero s => cases v with
    | notANumber => simp [UnpackedFloat.compare]
    | infinity t => cases t <;> simp [UnpackedFloat.compare, place, Prod.Lex.toLex_le_toLex]
    | zero t => simp [UnpackedFloat.compare, place]
    | finite t n f hn => cases t <;> simp [UnpackedFloat.compare, place, Prod.Lex.toLex_le_toLex]
  | finite s m e hm => cases v with
    | notANumber => cases s <;> simp [UnpackedFloat.compare]
    | infinity t =>
      cases s <;> cases t <;> simp [UnpackedFloat.compare, place, Prod.Lex.toLex_le_toLex]
    | zero t => cases s <;> simp [UnpackedFloat.compare, place, Prod.Lex.toLex_le_toLex]
    | finite t n f hn =>
      cases s <;> cases t
      · have hswap : ((compare e f).then (compare m n)).swap =
            (compare f e).then (compare n m) := by
          rw [Ordering.swap_then, ← Std.OrientedCmp.eq_swap, ← Std.OrientedCmp.eq_swap]
        simp [UnpackedFloat.compare, place, Prod.Lex.toLex_le_toLex, hswap, isLE_then_compare,
          @eq_comm _ e]
      · simp [UnpackedFloat.compare, place, Prod.Lex.toLex_le_toLex]
      · simp [UnpackedFloat.compare, place, Prod.Lex.toLex_le_toLex]
      · simp [UnpackedFloat.compare, place, Prod.Lex.toLex_le_toLex, isLE_then_compare]

/-- Doubles are ordered by their places, if both are numbers. -/
theorem le_iff_place (x y : Float) : x ≤ y ↔
    x.toModel.unpack ≠ .notANumber ∧ y.toModel.unpack ≠ .notANumber ∧
      place x.toModel.unpack ≤ place y.toModel.unpack := by
  rw [le_iff, le_unpacked_iff]

/-- One double is below another one by their places, if both are numbers. -/
theorem lt_iff_place (x y : Float) : x < y ↔
    x.toModel.unpack ≠ .notANumber ∧ y.toModel.unpack ≠ .notANumber ∧
      place x.toModel.unpack < place y.toModel.unpack := by
  constructor
  · intro h
    obtain ⟨hx, hy, -⟩ := (le_iff_place x y).mp (le_of_lt_double h)
    refine ⟨hx, hy, lt_of_not_ge fun hle => ?_⟩
    exact not_lt_of_le ((le_iff_place y x).mpr ⟨hy, hx, hle⟩) h
  · rintro ⟨hx, hy, hlt⟩
    by_contra hnot
    have hle := le_of_not_lt hnot (.inr ((le_iff_place x y).mpr ⟨hx, hy, hlt.le⟩))
    exact hlt.not_ge ((le_iff_place y x).mp hle).2.2

theorem le_of_le_le (h : x ≤ y) (h' : y ≤ z) : x ≤ z := by
  rw [le_iff_place] at h h' ⊢
  exact ⟨h.1, h'.2.1, h.2.2.trans h'.2.2⟩

theorem lt_of_lt_le (h : x < y) (h' : y ≤ z) : x < z := by
  rw [lt_iff_place] at h ⊢
  rw [le_iff_place] at h'
  exact ⟨h.1, h'.2.1, h.2.2.trans_le h'.2.2⟩

theorem lt_of_lt_lt (h : x < y) (h' : y < z) : x < z :=
  lt_of_lt_le h (le_of_lt_double h')

theorem lt_of_le_lt (h : x ≤ y) (h' : y < z) : x < z := by
  rw [lt_iff_place] at h' ⊢
  rw [le_iff_place] at h
  exact ⟨h.1, h'.2.1, h.2.2.trans_lt h'.2.2⟩

/-- A number is at most itself, which is how it is said that a double is one. -/
theorem le_refl_left (h : x ≤ y) : x ≤ x := by
  rw [le_iff_place] at h ⊢
  exact ⟨h.1, h.1, le_rfl⟩

theorem le_refl_right (h : x ≤ y) : y ≤ y := by
  rw [le_iff_place] at h ⊢
  exact ⟨h.2.1, h.2.1, le_rfl⟩

theorem le_refl_of_isFinite (h : x.isFinite) : x ≤ x := by
  change x.toModel.unpack.isFinite at h
  rw [le_iff_place]
  have hnumber : x.toModel.unpack ≠ .notANumber := by
    intro hnan
    rw [hnan] at h
    cases h
  exact ⟨hnumber, hnumber, le_rfl⟩

/-- Of two numbers one is at most the other. -/
theorem le_or_le (hx : x ≤ x) (hy : y ≤ y) : x ≤ y ∨ y ≤ x := by
  rw [le_iff_place] at hx hy
  rw [le_iff_place, le_iff_place]
  exact (le_total (place x.toModel.unpack) (place y.toModel.unpack)).imp (fun h => ⟨hx.1, hy.1, h⟩)
    fun h => ⟨hy.1, hx.1, h⟩

theorem isNaN_eq_false_of_le (h : x ≤ y) : x.isNaN = false := by
  change x.toModel.unpack.isNaN = false
  have hnumber := ((le_iff_place x y).mp h).1
  cases hx : x.toModel.unpack with
  | notANumber => exact absurd hx hnumber
  | _ => rfl

/-! ## What is not negative -/

/-- The double beyond all numbers. -/
def Endless (x : Float) : Prop :=
  x.toModel.unpack = .infinity .positive

/-- Nothing is beyond infinity. -/
theorem le_endless (hx : 0.0 ≤ x) (hy : Endless y) : x ≤ y := by
  rw [le_iff_place] at hx ⊢
  refine ⟨hx.2.1, by rw [hy]; nofun, ?_⟩
  rw [hy]
  cases x.toModel.unpack with
  | infinity s => cases s <;> simp [place, Prod.Lex.toLex_le_toLex]
  | finite s m e hm => cases s <;> simp [place, Prod.Lex.toLex_le_toLex]
  | zero s => simp [place, Prod.Lex.toLex_le_toLex]
  | notANumber => simp [place, Prod.Lex.toLex_le_toLex]

/-- Of a finite number that is not negative everything is known from its magnitude. -/
theorem exists_amount (h : 0.0 ≤ x) (hfinite : x.isFinite) :
    ∃ s b, Binary.Finite b ∧ (s = .positive ∨ b.m = 0) ∧ x = double s b :=
  ⟨sign x, .ofFloat x, (unpack_of_isFinite hfinite).2, sign_of_not_lt hfinite (not_lt_of_le h),
    (double_ofFloat hfinite).symm⟩

/-- What is not negative is a magnitude, or infinite. -/
theorem amount_or_endless (h : 0.0 ≤ x) :
    (∃ s b, Binary.Finite b ∧ (s = .positive ∨ b.m = 0) ∧ x = double s b) ∨ Endless x := by
  by_cases hfinite : x.isFinite
  · exact .inl (exists_amount h hfinite)
  · right
    change ¬ x.toModel.unpack.isFinite at hfinite
    rw [← double_zero, le_iff, unpack_zero] at h
    unfold Endless
    cases hx : x.toModel.unpack with
    | infinity s =>
      cases s with
      | positive => rfl
      | negative => rw [hx] at h; cases h
    | notANumber => rw [hx] at h; cases h
    | zero s => rw [hx] at hfinite; exact absurd rfl hfinite
    | finite s m e hm => rw [hx] at hfinite; exact absurd rfl hfinite

/-- Zero stands where it stands with either sign. -/
theorem place_unpacked (hs : s = .positive ∨ b.m = 0) :
    place (b.unpacked s) = place (b.unpacked .positive) := by
  rcases hs with rfl | hzero
  · rfl
  · rw [Binary.unpacked_of_eq_zero _ hzero, Binary.unpacked_of_eq_zero _ hzero]
    rfl

/-- Magnitudes are compared by their values, also where they come with the sign of a zero. -/
theorem amount_le_iff (ha : a.Finite) (hb : b.Finite) (hs : s = .positive ∨ a.m = 0)
    (ht : t = .positive ∨ b.m = 0) :
    double s a ≤ double t b ↔ a.value ≤ b.value := by
  have hnumber {c : Binary} {r : Sign} : c.unpacked r ≠ .notANumber := by
    unfold Binary.unpacked
    split <;> nofun
  rw [← double_le_iff ha hb, le_iff_place, le_iff_place, unpack_double ha, unpack_double hb,
    unpack_double ha, unpack_double hb, place_unpacked hs, place_unpacked ht]
  simp [hnumber]

/-! ## What a calculation gives -/

/-- What a number rounds to, with a sign only if that is zero. -/
def Gives (q : ℚ) (x : Float) : Prop :=
  ∃ s b, Binary.Canonical b ∧ b.Takes q ∧ (s = .positive ∨ b.m = 0) ∧ x = double s b

/-- A finite double that is not negative gives its value. -/
theorem gives_value (hb : b.Finite) (hs : s = .positive ∨ b.m = 0) : Gives b.value (double s b) :=
  ⟨s, b, hb.toCanonical, b.takes_value, hs, rfl⟩

/-- A magnitude beyond the largest one is infinity as a double. -/
theorem endless_double (hb : b.Canonical) (hlarge : ¬ b.Finite) : Endless (double .positive b) := by
  have hq : 971 < b.q := not_le.mp fun hle => hlarge ⟨hb, hle⟩
  change UnpackedFloat.unpack .binary64 (UnpackedFloat.pack .binary64 (b.unpacked .positive)) = _
  rw [hb.pack_of_large hq, unpack_packedInfinity]

theorem Gives.nonneg (h : Gives q x) : 0.0 ≤ x := by
  obtain ⟨s, b, hb, -, hs, rfl⟩ := h
  by_cases hfinite : b.Finite
  · rw [← double_zero, amount_le_iff finite_zero hfinite (.inl rfl) hs, Binary.value_zero]
    exact b.value_nonneg
  · have hm : b.m ≠ 0 := fun hm => hfinite (by rw [hb.eq_zero hm]; exact finite_zero)
    rw [hs.resolve_right hm, ← double_zero, le_iff, unpack_zero, endless_double hb hfinite]
    rfl

/-- **Rounding keeps the order**, also where something becomes infinite. -/
theorem Gives.mono (hx : Gives q x) (hy : Gives r y) (h : q ≤ r) : x ≤ y := by
  have hnonneg := hx.nonneg
  obtain ⟨s, a, ha, haq, hs, rfl⟩ := hx
  obtain ⟨t, b, hb, hbr, ht, rfl⟩ := hy
  have hvalue := haq.mono hbr ha hb h
  by_cases hfinite : b.Finite
  · have hafinite : a.Finite := ⟨ha, (ha.q_le hb hvalue).trans hfinite.q_le⟩
    exact (amount_le_iff hafinite hfinite hs ht).mpr hvalue
  · have hm : b.m ≠ 0 := fun hm => hfinite (by rw [hb.eq_zero hm]; exact finite_zero)
    rw [ht.resolve_right hm]
    exact le_endless hnonneg (endless_double hb hfinite)

/-- A product of finite doubles gives the exact one, rounded. -/
theorem gives_mul (ha : a.Finite) (hb : b.Finite) (hs : s = .positive ∨ a.m = 0)
    (ht : t = .positive ∨ b.m = 0) :
    Gives (a.value * b.value) (double s a * double t b) := by
  obtain ⟨c, hc, htakes, hproduct⟩ := rounded_mul (s := s) (t := t) ha hb
  refine ⟨s * t, c, hc, htakes, ?_, hproduct⟩
  have hzero (h : a.value * b.value = 0) : c.m = 0 := by
    rw [h, ← Binary.value_zero] at htakes
    rw [htakes.unique Binary.zero.takes_value hc Binary.canonical_zero]
    rfl
  rcases hs with rfl | hs
  · rcases ht with rfl | ht
    · exact .inl rfl
    · exact .inr (hzero (by rw [Binary.value_of_eq_zero ht, mul_zero]))
  · exact .inr (hzero (by rw [Binary.value_of_eq_zero hs, zero_mul]))

theorem double_mul_one (hb : b.Finite) (s : Sign) : double s b * 1.0 = double s b := by
  have hrounded : Rounded _ (s * .positive) (double s b * double .positive .one) :=
    rounded_mul hb Binary.finite_one
  rw [Binary.value_one, mul_one, double_one] at hrounded
  rw [hrounded.eq_double hb.toCanonical]
  cases s <;> rfl

/-- One more than a finite double gives the exact sum, rounded. -/
theorem gives_one_add (hb : b.Finite) (hs : s = .positive ∨ b.m = 0) :
    Gives (1 + b.value) (1.0 + double s b) := by
  obtain ⟨c, hc, htakes, hsum⟩ := rounded_add Binary.finite_one hb hs
  rw [Binary.value_one] at htakes
  exact ⟨.positive, c, hc, htakes, .inl rfl, hsum⟩

/-! ## Products and sums -/

/-- What lies between zero and a finite double is finite. -/
theorem isFinite_of_le (hx : 0.0 ≤ x) (hle : x ≤ y) (hy : y.isFinite) : x.isFinite := by
  obtain ⟨t, b, hb, -, rfl⟩ := exists_amount (le_of_le_le hx hle) hy
  exact isFinite_of_le_of_le finite_zero hb (double_zero.symm ▸ hx) hle

/-- Products of doubles are ordered where all factors are finite. -/
theorem mul_le_mul_of_isFinite (hx : 0.0 ≤ x) (hy : 0.0 ≤ y) (hxx : x ≤ x') (hyy : y ≤ y')
    (hx' : x'.isFinite) (hy' : y'.isFinite) : x * y ≤ x' * y' := by
  obtain ⟨s, a, ha, hs, rfl⟩ := exists_amount hx (isFinite_of_le hx hxx hx')
  obtain ⟨t, b, hb, ht, rfl⟩ := exists_amount hy (isFinite_of_le hy hyy hy')
  obtain ⟨s', a', ha', hs', rfl⟩ := exists_amount (le_of_le_le hx hxx) hx'
  obtain ⟨t', b', hb', ht', rfl⟩ := exists_amount (le_of_le_le hy hyy) hy'
  refine (gives_mul ha hb hs ht).mono (gives_mul ha' hb' hs' ht') ?_
  exact mul_le_mul ((amount_le_iff ha ha' hs hs').mp hxx) ((amount_le_iff hb hb' ht ht').mp hyy)
    b.value_nonneg
    a'.value_nonneg

/-- What is positive is finite and not zero, or infinite. -/
theorem finite_or_endless_of_pos (h : 0.0 < x) :
    (∃ m e hm, x.toModel.unpack = .finite .positive m e hm) ∨ Endless x := by
  rw [← double_zero, lt_iff, unpack_zero] at h
  unfold Endless
  cases hx : x.toModel.unpack with
  | notANumber => rw [hx] at h; cases h
  | zero s => rw [hx] at h; cases h
  | infinity s =>
    cases s with
    | positive => exact .inr rfl
    | negative => rw [hx] at h; cases h
  | finite s m e hm =>
    cases s with
    | positive => exact .inl ⟨m, e, hm, rfl⟩
    | negative => rw [hx] at h; cases h

theorem endless_of_unpack (h : u = .infinity .positive) : Endless (.ofModel (.pack u)) := by
  rw [h]
  exact unpack_packedInfinity .positive

/-- Infinity times a positive double is infinity. -/
theorem endless_mul (hx : Endless x) (hy : 0.0 < y) : Endless (x * y) := by
  refine endless_of_unpack (u := .mul .binary64 x.toModel.unpack y.toModel.unpack) ?_
  obtain ⟨m, e, hm, hfinite⟩ | hendless := finite_or_endless_of_pos hy
  · rw [hx, hfinite]
    rfl
  · rw [hx, hendless]
    rfl

theorem mul_endless (hx : 0.0 < x) (hy : Endless y) : Endless (x * y) := by
  refine endless_of_unpack (u := .mul .binary64 x.toModel.unpack y.toModel.unpack) ?_
  obtain ⟨m, e, hm, hfinite⟩ | hendless := finite_or_endless_of_pos hx
  · rw [hy, hfinite]
    rfl
  · rw [hy, hendless]
    rfl

/-- Infinity is not finite. -/
theorem Endless.not_isFinite (h : Endless x) : ¬ x.isFinite := by
  intro hfinite
  change x.toModel.unpack.isFinite at hfinite
  rw [h] at hfinite
  cases hfinite

theorem Endless.nonneg (h : Endless x) : 0.0 ≤ x := by
  rw [← double_zero, le_iff, unpack_zero, h]
  rfl

theorem mul_nonneg_of_pos (hx : 0.0 < x) (hy : 0.0 < y) : 0.0 ≤ x * y := by
  obtain ⟨s, a, ha, hs, rfl⟩ | hendless := amount_or_endless (le_of_lt_double hx)
  · obtain ⟨t, b, hb, ht, rfl⟩ | hendless := amount_or_endless (le_of_lt_double hy)
    · exact (gives_mul ha hb hs ht).nonneg
    · exact (mul_endless hx hendless).nonneg
  · exact (endless_mul hendless hy).nonneg

/-- Products of positive doubles are ordered, infinity among them. -/
theorem mul_le_mul_of_pos (hx : 0.0 < x) (hy : 0.0 < y) (hxx : x ≤ x') (hyy : y ≤ y') :
    x * y ≤ x' * y' := by
  have hx' := lt_of_lt_le hx hxx
  have hy' := lt_of_lt_le hy hyy
  obtain ⟨s, a, ha, -, rfl⟩ | hendless := amount_or_endless (le_of_lt_double hx')
  · obtain ⟨t, b, hb, -, rfl⟩ | hendless := amount_or_endless (le_of_lt_double hy')
    · exact mul_le_mul_of_isFinite (le_of_lt_double hx) (le_of_lt_double hy) hxx hyy
        (isFinite_double ha s)
        (isFinite_double hb t)
    · exact le_endless (mul_nonneg_of_pos hx hy) (mul_endless hx' hendless)
  · exact le_endless (mul_nonneg_of_pos hx hy) (endless_mul hendless hy')

/-- One more than infinity is infinity. -/
theorem one_add_endless (hx : Endless x) : Endless (1.0 + x) := by
  refine endless_of_unpack (u := .add .binary64 (1.0 : Float).toModel.unpack x.toModel.unpack) ?_
  rw [hx, ← double_one, unpack_double Binary.finite_one]
  unfold Binary.unpacked
  split <;> rfl

theorem one_add_nonneg (hx : 0.0 ≤ x) : 0.0 ≤ 1.0 + x := by
  obtain ⟨s, b, hb, hs, rfl⟩ | hendless := amount_or_endless hx
  · exact (gives_one_add hb hs).nonneg
  · exact (one_add_endless hendless).nonneg

/-- Adding one keeps the order. -/
theorem one_add_le_one_add (hx : 0.0 ≤ x) (hxx : x ≤ x') : 1.0 + x ≤ 1.0 + x' := by
  obtain ⟨s', b', hb', hs', rfl⟩ | hendless := amount_or_endless (le_of_le_le hx hxx)
  · obtain ⟨s, b, hb, hs, rfl⟩ := exists_amount hx (isFinite_of_le hx hxx (isFinite_double hb' s'))
    refine (gives_one_add hb hs).mono (gives_one_add hb' hs') ?_
    have := (amount_le_iff hb hb' hs hs').mp hxx
    linarith
  · exact le_endless (one_add_nonneg hx) (one_add_endless hendless)

/-- One more than what is not negative is at least one. -/
theorem one_le_one_add (hx : 0.0 ≤ x) : 1.0 ≤ 1.0 + x := by
  rw [← double_one]
  obtain ⟨s, b, hb, hs, rfl⟩ | hendless := amount_or_endless hx
  · refine (gives_value Binary.finite_one (.inl rfl)).mono (gives_one_add hb hs) ?_
    rw [Binary.value_one]
    exact le_add_of_nonneg_right b.value_nonneg
  · exact le_endless (gives_value Binary.finite_one (.inl rfl)).nonneg (one_add_endless hendless)

theorem zero_lt_one : (0.0 : Float) < 1.0 :=
  double_one ▸ (zero_lt_double_iff Binary.finite_one).mpr ⟨rfl, by decide⟩

theorem isFinite_zero : (0.0 : Float).isFinite :=
  double_zero ▸ isFinite_double finite_zero .positive

theorem isFinite_one : (1.0 : Float).isFinite :=
  double_one ▸ isFinite_double Binary.finite_one .positive

/-! ## Signs -/

/-- Negation changes the sign of what the bits stand for. -/
theorem unpack_neg (x : Float) : (-x).toModel.unpack = x.toModel.unpack.neg := by
  by_cases hfinite : x.isFinite
  · have hb := (unpack_of_isFinite hfinite).2
    rw [← double_ofFloat hfinite, neg_double hb, unpack_double hb, unpack_double hb]
    unfold Binary.unpacked
    split <;> rfl
  · change UnpackedFloat.unpack .binary64 (UnpackedFloat.pack .binary64 x.toModel.unpack.neg) = _
    change ¬ x.toModel.unpack.isFinite at hfinite
    cases hx : x.toModel.unpack with
    | notANumber => exact unpack_packedNaN
    | infinity s => exact unpack_packedInfinity (-s)
    | zero s => rw [hx] at hfinite; exact absurd rfl hfinite
    | finite s m e hm => rw [hx] at hfinite; exact absurd rfl hfinite

/-- It does not matter which factor has the sign. -/
theorem mul_neg_comm (x y : Float) : -x * y = x * -y := by
  change Float.ofModel (.pack (.mul .binary64 (-x).toModel.unpack y.toModel.unpack)) =
    .ofModel (.pack (.mul .binary64 x.toModel.unpack (-y).toModel.unpack))
  rw [unpack_neg, unpack_neg]
  congr 2
  have hsign (s t : Sign) : -s * t = s * -t := by cases s <;> cases t <;> rfl
  cases x.toModel.unpack <;> cases y.toModel.unpack <;>
    simp [UnpackedFloat.neg, UnpackedFloat.mul, hsign]

/-- The negation of what is not positive is not negative. -/
theorem nonneg_neg (h : x ≤ 0.0) : 0.0 ≤ -x := by
  rw [← double_zero, le_iff, unpack_zero] at h ⊢
  rw [unpack_neg]
  cases hx : x.toModel.unpack with
  | notANumber => rw [hx] at h; cases h
  | zero s => rfl
  | infinity s => cases s with
    | negative => rfl
    | positive => rw [hx] at h; cases h
  | finite s m e hm => cases s with
    | negative => rfl
    | positive => rw [hx] at h; cases h

end Roster.Decimal
