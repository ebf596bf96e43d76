import Roster.Proofs.Decimal.Plain

/-!
# Proportions in data files

Numbers in data files are read with one rounded operation, so a double need not come back as it was.
A proportion, from zero to one, does at least come back as one (`proportion_toNumber?`): the digits
that are taken into the significand make no more than the power of ten that it is divided by,
rounding keeps that order, and a quotient of two such numbers rounds to one at most.
-/

namespace Roster.Decimal

open Float.Model (UnpackedFloat)
open Float.Model.UnpackedFloat (Sign)

variable {a b : Binary} {v : ℚ} {x : Float}

/-! ## Bounds -/

namespace Binary

/-- The double one, as a magnitude. -/
def one : Binary :=
  ofParts (2 ^ 52) (-52)

theorem finite_one : one.Finite :=
  ⟨canonical_ofParts (by norm_num) (by norm_num) (.inl le_rfl), by simp [one, ofParts]⟩

theorem value_one : one.value = 1 := by
  change ((2 ^ 52 : ℕ) : ℚ) * 2 ^ (-52 : ℤ) = 1
  norm_num

theorem takes_one : one.Takes 1 := by
  have htakes := one.takes_value
  rwa [value_one] at htakes

/-- What is no more than the largest double rounds to a finite one. -/
theorem Takes.finite (h : b.Takes v) (hb : b.Canonical) (hv : v ≤ 10 ^ 308) : b.Finite := by
  obtain ⟨-, hpowers, -⟩ := powers_at_ends
  have hlargest : (10 : ℚ) ^ 308 ≤ largest.value := by
    change (10 : ℚ) ^ 308 ≤ ((2 ^ 53 - 1 : ℕ) : ℚ) * 2 ^ (971 : ℤ)
    rw [zpow_ofNat]
    exact_mod_cast hpowers
  have hoverflow : largest.value < overflow := largest.value_lt_high.trans_eq high_largest
  exact (h.finite_iff hb).mpr ((hv.trans hlargest).trans_lt hoverflow)

end Binary

theorem le_of_le_size (hv : v ≤ 2 ^ 64) : v ≤ 10 ^ 308 :=
  calc
    v ≤ 2 ^ 64 := hv
    _ ≤ 10 ^ 64 := pow_le_pow_left₀ (by norm_num) (by norm_num) 64
    _ ≤ 10 ^ 308 := pow_le_pow_right₀ (by norm_num) (by norm_num)

theorem cast_le_of_lt_size {s : ℕ} (hs : s < UInt64.size) : (s : ℚ) ≤ 10 ^ 308 :=
  le_of_le_size (by exact_mod_cast hs.le)

theorem double_one : double .positive .one = 1.0 :=
  rfl

/-- Each power of ten in the table is the double that takes it. -/
theorem exists_powerOfTen {k : ℕ} (hk : k ≤ 308) :
    ∃ p : Binary, p.Finite ∧ p.Takes (10 ^ k) ∧ 1 ≤ p.value ∧
      powerOfTen k = double .positive p := by
  have hrounded : Rounded ((1 : ℕ) * 10 ^ (if false then -k else k : ℤ)) .positive
      (Float.ofScientific 1 false k) := rounded_ofScientific one_ne_zero (.inl (by omega)) nofun
  obtain ⟨p, hp, htakes, hpower⟩ := hrounded
  have hvalue : ((1 : ℕ) * 10 ^ (if false then -k else k : ℤ) : ℚ) = 10 ^ k := by simp
  rw [hvalue] at htakes
  have hone : (1 : ℚ) ≤ 10 ^ k := one_le_pow₀ (by norm_num)
  refine ⟨p, htakes.finite hp (pow_le_pow_right₀ (by norm_num) hk), htakes, ?_, hpower⟩
  have hmono := Binary.takes_one.mono htakes Binary.finite_one.toCanonical hp hone
  rwa [Binary.value_one] at hmono

/-- A quotient that is one at most. -/
theorem div_takes (ha : a.Finite) (hb : b.Finite) (hle : a.value ≤ b.value) (hpos : 0 < b.value) :
    ∃ c : Binary, c.Finite ∧ c.Takes (a.value / b.value) ∧ c.value ≤ 1 ∧
      double .positive a / double .positive b = double .positive c := by
  have hne : b.m ≠ 0 := fun hzero => hpos.ne' (Binary.value_of_eq_zero hzero)
  have hrounded : Rounded _ .positive (double .positive a / double .positive b) :=
    rounded_div ha hb hne
  obtain ⟨c, hc, htakes, hdouble⟩ := hrounded
  have hquotient : a.value / b.value ≤ 1 := (div_le_one₀ hpos).mpr hle
  have hmono := htakes.mono Binary.takes_one hc Binary.finite_one.toCanonical hquotient
  rw [Binary.value_one] at hmono
  exact ⟨c, htakes.finite hc (hquotient.trans (one_le_pow₀ (by norm_num))), htakes, hmono, hdouble⟩

theorem mul_powerOfTen_zero (ha : a.Finite) :
    double .positive a * powerOfTen 0 = double .positive a := by
  obtain ⟨p, hp, htakes, -, hpower⟩ := exists_powerOfTen (Nat.zero_le 308)
  rw [pow_zero] at htakes
  have hone : p = .one :=
    htakes.unique Binary.takes_one hp.toCanonical Binary.finite_one.toCanonical
  have hrounded : Rounded _ .positive (double .positive a * double .positive .one) :=
    rounded_mul ha Binary.finite_one
  rw [Binary.value_one, mul_one] at hrounded
  rw [hpower, hone]
  exact hrounded.eq_double ha.toCanonical

theorem isInf_double (hb : b.Finite) (s : Sign) : (double s b).isInf = false := by
  change (double s b).toModel.unpack.isInf = false
  rw [unpack_double hb, Binary.unpacked]
  split <;> rfl

theorem isNaN_double (hb : b.Finite) (s : Sign) : (double s b).isNaN = false := by
  change (double s b).toModel.unpack.isNaN = false
  rw [unpack_double hb, Binary.unpacked]
  split <;> rfl

/-- A magnitude that is equal to zero is zero. -/
theorem eq_zero_of_beq (ha : a.Finite) (h : double .positive a == 0.0) : a.m = 0 := by
  by_contra hne
  have hzero : (0.0 : Float).toModel.unpack = .zero .positive := by
    rw [← double_zero, unpack_double finite_zero]
    rfl
  change (double .positive a).toModel.unpack.compare (0.0 : Float).toModel.unpack == some .eq at h
  rw [unpack_double ha, hzero, Binary.unpacked_of_ne_zero _ hne] at h
  cases h

/-! ## Powers of ten -/

/-- A proportion is still one when it has been divided by powers of ten. -/
theorem applyExponent_of_le_one (fuel : ℕ) {e : ℤ} (he : e ≤ 0) (ha : a.Finite)
    (hle : a.value ≤ 1) :
    ∃ c : Binary, c.Finite ∧ c.value ≤ 1 ∧
      applyExponent fuel (double .positive a) e = some (double .positive c) := by
  induction fuel generalizing a e with
  | zero => exact ⟨a, ha, hle, rfl⟩
  | succ fuel ih =>
    rw [applyExponent]
    split
    · next hsmall =>
      split
      -- An exponent of zero is not taken to be negative: the factor is one.
      · have hzero : e.natAbs = 0 := by omega
        refine ⟨a, ha, hle, ?_⟩
        simp only [hzero, mul_powerOfTen_zero ha, isInf_double ha]
        rfl
      · obtain ⟨p, hp, -, hone, hpower⟩ := exists_powerOfTen hsmall
        obtain ⟨c, hc, -, hcle, hquotient⟩ := div_takes ha hp (hle.trans hone) (by linarith)
        exact ⟨c, hc, hcle, by rw [hpower, hquotient]⟩
    · split
      · exact ⟨a, ha, hle, rfl⟩
      · rw [if_neg (by omega)]
        obtain ⟨p, hp, -, hone, hpower⟩ := exists_powerOfTen le_rfl
        obtain ⟨c, hc, -, hcle, hquotient⟩ := div_takes ha hp (hle.trans hone) (by linarith)
        rw [hpower, hquotient]
        exact ih (by omega) hc hcle

/-- So is a significand that is no more than the power of ten it is divided by. -/
theorem applyExponent_le_one (fuel : ℕ) {e : ℤ} (he : e ≤ 0) (ha : a.Finite) (htakes : a.Takes v)
    (hv : v ≤ 10 ^ (-e)) (hmax : v ≤ 10 ^ 308) :
    ∃ c : Binary, c.Finite ∧ c.value ≤ 1 ∧
      applyExponent (fuel + 1) (double .positive a) e = some (double .positive c) := by
  by_cases hzero : e = 0
  · refine applyExponent_of_le_one (fuel + 1) he ha ?_
    rw [hzero, neg_zero, zpow_zero] at hv
    have hmono := htakes.mono Binary.takes_one ha.toCanonical Binary.finite_one.toCanonical hv
    rwa [Binary.value_one] at hmono
  rw [applyExponent]
  split
  · next hsmall =>
    rw [if_neg (by omega)]
    obtain ⟨p, hp, hten, hone, hpower⟩ := exists_powerOfTen hsmall
    have hle : v ≤ 10 ^ e.natAbs := by
      rw [← zpow_natCast]
      refine hv.trans_eq (congrArg _ ?_)
      omega
    obtain ⟨c, hc, -, hcle, hquotient⟩ := div_takes ha hp
      (htakes.mono hten ha.toCanonical hp.toCanonical hle) (by linarith)
    exact ⟨c, hc, hcle, by rw [hpower, hquotient]⟩
  · split
    · next hbeq =>
      refine ⟨a, ha, ?_, rfl⟩
      rw [Binary.value_of_eq_zero (eq_zero_of_beq ha hbeq)]
      exact zero_le_one
    · rw [if_neg (by omega)]
      obtain ⟨p, hp, hten, hone, hpower⟩ := exists_powerOfTen le_rfl
      obtain ⟨c, hc, -, hcle, hquotient⟩ := div_takes ha hp
        (htakes.mono hten ha.toCanonical hp.toCanonical hmax) (by linarith)
      rw [hpower, hquotient]
      exact applyExponent_of_le_one fuel (by omega) hc hcle

/-! ## Significands -/

/-- The digits that are taken make the number together with those that are left, and if some are
    left, the significand has all its digits. -/
theorem gather_spec (ds : List Char) (hds : ∀ c ∈ ds, c.isDigit) (significand taken : ℕ)
    (h : significand < UInt64.size) :
    ∃ s k, gather significand taken ds = (s, taken + k, ds.drop k) ∧ k ≤ ds.length ∧
      s < UInt64.size ∧ (k < ds.length → UInt64.size ≤ s * 10 + 9) ∧
      s * 10 ^ (ds.length - k) + natOfDigits (ds.drop k) =
        significand * 10 ^ ds.length + natOfDigits ds := by
  induction ds generalizing significand taken with
  | nil => exact ⟨significand, 0, rfl, le_rfl, h, nofun, by simp⟩
  | cons d rest ih =>
    rw [gather]
    split
    · next hfits =>
      obtain ⟨s, k, hgather, hk, hs, hfull, heq⟩ :=
        ih (fun c hc => hds c (List.mem_cons_of_mem d hc)) _ (taken + 1) hfits
      refine ⟨s, k + 1, ?_, by simpa using hk, hs, fun hlt => hfull (by simpa using hlt), ?_⟩
      · rw [hgather, List.drop_succ_cons]
        congr 2
        omega
      · rw [List.length_cons, Nat.add_sub_add_right, natOfDigits_cons,
          natOfDigits_singleton, pow_succ, List.drop_succ_cons, heq]
        change (significand * 10 + (d.toNat - 48)) * 10 ^ rest.length + _ = _
        ring
    · next hlarge =>
      refine ⟨significand, 0, rfl, Nat.zero_le _, h, fun _ => ?_, by simp⟩
      have hd : natOfDigits [d] < 10 := by
        simpa using @natOfDigits_lt [d] (by simpa using hds d List.mem_cons_self)
      rw [natOfDigits_singleton] at hd
      change ¬ significand * 10 + (d.toNat - 48) < UInt64.size at hlarge
      omega

variable {n : Numeral}

/-- A numeral that is written as no integer, with one digit before the point and no
    power of ten above one. -/
structure Numeral.Small (n : Numeral) : Prop where
  whole : ∃ c, n.whole = [c] ∧ c.isDigit
  notWhole : n.fraction = none → n.exponent ≠ none
  power : n.power ≤ 0
  magnitude : n.magnitude ≤ 1

/-- What an exponent that is not positive comes to. One that is out of all bounds
    makes the number zero. -/
theorem scaled_eq (s : ℕ) (e : ℤ) (hpower : n.power ≤ 0) : scaled s e n.exponent =
    if exponentLimit < -n.power then some 0.0
    else applyExponent 8 s.toUInt64.toFloat (e + n.power) := by
  unfold scaled
  rw [Numeral.power] at hpower ⊢
  cases hexponent : n.exponent with
  | none => simp [exponentLimit]
  | some written =>
    obtain ⟨negative, ds⟩ := written
    rw [hexponent] at hpower
    cases negative with
    | true => simp [sub_eq_add_neg]
    | false =>
      -- Without a sign the exponent can only be zero.
      have hzero : natOfDigits ds = 0 := by simpa using hpower
      simp [hzero, exponentLimit]

/-- Digits that fit into 64 bits are rounded to the double that takes them. -/
theorem exists_toFloat {s : ℕ} (hs : s < UInt64.size) :
    ∃ a : Binary, a.Finite ∧ a.Takes s ∧ s.toUInt64.toFloat = double .positive a := by
  have hsize : s.toUInt64.toNat = s := by
    simpa using Nat.mod_eq_of_lt hs
  obtain ⟨a, ha, htakes, hfloat⟩ := rounded_toFloat s.toUInt64
  rw [hsize] at htakes
  exact ⟨a, htakes.finite ha (cast_le_of_lt_size hs), htakes, hfloat⟩

/-- Scaled digits are at most one, if the number that they stand for is. -/
theorem scaled_le_one {s : ℕ} {e : ℤ} (hs : s < UInt64.size) (he : e + n.power ≤ 0)
    (hpower : n.power ≤ 0) (hle : (s : ℚ) ≤ 10 ^ (-(e + n.power))) :
    ∃ c : Binary, c.Finite ∧ c.value ≤ 1 ∧ scaled s e n.exponent = some (double .positive c) := by
  obtain ⟨a, ha, htakes, hfloat⟩ := exists_toFloat hs
  rw [scaled_eq s e hpower]
  split
  · exact ⟨.zero, finite_zero, by simp [Binary.value_zero], by simp [double_zero]⟩
  · rw [hfloat]
    exact applyExponent_le_one 7 he ha htakes hle (cast_le_of_lt_size hs)

/-- What is left of the digits is less than one of the significand, which is large if
    something is left. -/
theorem eight_mul_rest_le {ds : List Char} {s k : ℕ} (hds : ∀ c ∈ ds, c.isDigit)
    (hk : k ≤ ds.length) (hfull : k < ds.length → UInt64.size ≤ s * 10 + 9) :
    8 * natOfDigits (ds.drop k) ≤ s * 10 ^ (ds.length - k) := by
  rcases hk.lt_or_eq with hlt | rfl
  · have hrest := @natOfDigits_lt (ds.drop k) fun c hc => hds c (List.mem_of_mem_drop hc)
    rw [List.length_drop] at hrest
    have hlarge : UInt64.size ≤ s * 10 + 9 := hfull hlt
    have height : 8 ≤ s := by
      simp only [UInt64.size] at hlarge
      omega
    exact Nat.mul_le_mul height hrest.le
  · rw [List.drop_length]
    exact Nat.zero_le _

/-- Such a numeral is scaled from the digits that there is room for. -/
theorem Numeral.Small.toNumber?_eq (h : n.Small) {d : Char} {s₀ s k : ℕ} {rest : List Char}
    (hwhole : n.whole = [d]) (hfirst : gather 0 0 [d] = (s₀, 1, []))
    (hgather : gather s₀ 0 (n.fraction.getD []) = (s, k, rest)) :
    n.toNumber? = (scaled s (-k) n.exponent).map fun x =>
      .double (if n.negative then -x else x) := by
  simp only [Numeral.toNumber?, hwhole, hfirst]
  cases hfraction : n.fraction with
  | some fs =>
    rw [hfraction] at hgather
    simp only [hgather, List.length_nil, Nat.cast_zero, zero_sub]
  | none =>
    cases hexponent : n.exponent with
    | none => exact absurd hexponent (h.notWhole hfraction)
    | some written =>
      rw [hfraction] at hgather
      simp only [hgather, List.length_nil, Nat.cast_zero, zero_sub]

/-- Such a numeral is read from a significand and a power of ten that make almost as much as is
    written. -/
theorem Numeral.Small.exists_significand (h : n.Small) (hwf : n.Wf) :
    ∃ s k : ℕ, s < UInt64.size ∧
      (s : ℚ) * 10 ^ (-(k : ℤ) + n.power) ≤ n.magnitude ∧
      8 * n.magnitude ≤ 9 * (s * 10 ^ (-(k : ℤ) + n.power)) ∧
      n.toNumber? = (scaled s (-k) n.exponent).map fun x =>
        .double (if n.negative then -x else x) := by
  obtain ⟨d, hwhole, hdigit⟩ := h.whole
  have hd : natOfDigits [d] < 10 := by
    simpa using @natOfDigits_lt [d] (by simpa using hdigit)
  have hfirst : gather 0 0 [d] = (natOfDigits [d], 1, []) :=
    gather_eq (hd.trans (by decide))
  have hdigits : ∀ c ∈ n.fraction.getD [], c.isDigit :=
    fun c hc => hwf.readable.digits.isDigit c (List.mem_append_right _ hc)
  obtain ⟨s, k, hgather, hk, hs, hfull, heq⟩ :=
    gather_spec (n.fraction.getD []) hdigits (natOfDigits [d]) 0 (hd.trans (by decide))
  rw [Nat.zero_add] at hgather
  have hleft := eight_mul_rest_le hdigits hk hfull
  have hmagnitude : n.magnitude =
      (s * 10 ^ ((n.fraction.getD []).length - k) + natOfDigits ((n.fraction.getD []).drop k) : ℕ) *
        10 ^ (n.power - (n.fraction.getD []).length) := by
    rw [Numeral.magnitude, hwhole, List.singleton_append, natOfDigits_cons, heq]
  have hscale : (0 : ℚ) < 10 ^ (n.power - (n.fraction.getD []).length) := by positivity
  have htaken : (s : ℚ) * 10 ^ (-(k : ℤ) + n.power) =
      (s * 10 ^ ((n.fraction.getD []).length - k) : ℕ) *
      10 ^ (n.power - (n.fraction.getD []).length) := by
    rw [Nat.cast_mul, Nat.cast_pow, Nat.cast_ofNat, mul_assoc, ← zpow_natCast,
      ← zpow_add₀ (by norm_num)]
    congr 2
    omega
  refine ⟨s, k, hs, ?_, ?_, ?_⟩
  · rw [hmagnitude, htaken]
    exact mul_le_mul_of_nonneg_right (by exact_mod_cast Nat.le_add_right _ _) hscale.le
  · rw [hmagnitude, htaken, ← mul_assoc, ← mul_assoc]
    refine mul_le_mul_of_nonneg_right ?_ hscale.le
    have hnat : 8 * (s * 10 ^ ((n.fraction.getD []).length - k) +
        natOfDigits ((n.fraction.getD []).drop k)) ≤
        9 * (s * 10 ^ ((n.fraction.getD []).length - k)) := by omega
    exact_mod_cast hnat
  · exact h.toNumber?_eq hwhole hfirst hgather

/-- **What is read from such a numeral is one at most.** -/
theorem Numeral.Small.toNumber? (h : n.Small) (hwf : n.Wf) :
    ∃ c : Binary, c.Finite ∧ c.value ≤ 1 ∧ n.toNumber? =
      some (.double (if n.negative then -double .positive c else double .positive c)) := by
  obtain ⟨s, k, hs, hle, -, hnumber⟩ := h.exists_significand hwf
  have hpower := h.power
  have hsignificand : (s : ℚ) ≤ 10 ^ (-(-(k : ℤ) + n.power)) := by
    rw [zpow_neg, ← one_div, le_div_iff₀ (by positivity)]
    exact hle.trans h.magnitude
  obtain ⟨c, hc, hcle, hscaled⟩ := scaled_le_one hs (by omega) hpower hsignificand
  exact ⟨c, hc, hcle, by rw [hnumber, hscaled, Option.map_some]⟩

/-! ## Proportions in writing -/

theorem magnitude_lt_one (ha : (Binary.ofFloat x).Canonical) (hle : (Binary.ofFloat x).value < 1) :
    (Numeral.ofFloat .json x).magnitude < 1 := by
  have hhigh : (Binary.ofFloat x).high ≤ Binary.one.low :=
    (Binary.high_le_low ha Binary.finite_one.toCanonical (by rwa [Binary.value_one])).1
  have hlow : Binary.one.low < 1 := Binary.one.low_lt_value.trans_eq Binary.value_one
  rcases (takes_ofFloat .json x).high with hlt | ⟨-, heq⟩
  · linarith
  · linarith

/-- Zero is written as a small numeral. -/
theorem small_zero : (Numeral.ofFloat .json 0.0).Small := by
  have hzero : Numeral.ofFloat .json 0.0 = { whole := ['0'], fraction := some ['0'] } := rfl
  rw [hzero]
  refine ⟨⟨'0', rfl, rfl⟩, nofun, le_rfl, ?_⟩
  have hzeros : natOfDigits ['0', '0'] = 0 := natOfDigits_zeros 2
  simp [Numeral.magnitude, hzeros]

/-- One is written as a small numeral. -/
theorem small_one : (Numeral.ofFloat .json 1.0).Small := by
  have hone : Numeral.ofFloat .json 1.0 = { whole := ['1'], fraction := some ['0'] } := rfl
  rw [hone]
  refine ⟨⟨'1', rfl, rfl⟩, nofun, le_rfl, ?_⟩
  have hten : natOfDigits ['1', '0'] = 10 := by decide
  simp [Numeral.magnitude, Numeral.power, hten]

/-- The first digit of a number less than one stands behind the point. -/
theorem point_le_zero {k : ℕ} {e : ℤ} (hk : k ≠ 0) (hlt : (k : ℚ) * 10 ^ e < 1) :
    e + (Nat.toDigits 10 k).length ≤ 0 := by
  by_contra hpos
  have hhead := head?_toDigits hk
  have hdigit := (isDigits_toDigits k).isDigit
  have hk' := natOfDigits_toDigits k
  generalize Nat.toDigits 10 k = ds at *
  cases ds with
  | nil =>
    rw [← hk'] at hk
    exact hk rfl
  | cons c rest =>
    have hmany := @le_natOfDigits rest c (hdigit c (by simp)) (by simpa using hhead)
    rw [hk'] at hmany
    have hlow : (1 : ℚ) ≤ 10 ^ (rest.length + e) :=
      one_le_zpow₀ (by norm_num) (by rw [List.length_cons] at hpos; omega)
    rw [zpow_add₀ (by norm_num), zpow_natCast] at hlow
    have hscale : (0 : ℚ) < 10 ^ e := by positivity
    have hcast : (10 : ℚ) ^ rest.length ≤ k := by exact_mod_cast hmany
    exact absurd (hlow.trans (mul_le_mul_of_nonneg_right hcast hscale.le)) (not_le.mpr hlt)

/-- A double below one is written as a small numeral. -/
theorem small_of_lt_one (hm : (Binary.ofFloat x).m ≠ 0) (hx : (Binary.ofFloat x).Canonical)
    (hlt : (Binary.ofFloat x).value < 1) : (Numeral.ofFloat .json x).Small := by
  have hmagnitude := magnitude_lt_one hx hlt
  have hdigits := Binary.digits_shortest Style.json.tie hm
  have hpoint := point_le_zero hdigits ((magnitude_ofFloat .json hm).symm.trans_lt hmagnitude)
  refine ⟨?_, ?_, ?_, hmagnitude.le⟩
  all_goals
    simp only [Numeral.ofFloat, if_neg hdigits]
    generalize (Binary.ofFloat x).shortest Style.json.tie = d at *
  · split
    · exact ⟨'0', by simp [placePoint, hpoint], rfl⟩
    · have hds := isDigits_toDigits d.digits
      obtain ⟨c, rest, hcons⟩ := List.exists_cons_of_ne_nil hds.ne_nil
      exact ⟨c, by simp [scientific, hcons], hds.isDigit c (by simp [hcons])⟩
  · split
    · simp [placePoint, hpoint]
    · simp [scientific]
  · split
    · exact le_rfl
    · change (scientific (Nat.toDigits 10 d.digits) _).power ≤ 0
      rw [power_scientific]
      omega

/-! ## Back to a double -/

/-- The doubles from zero to one. There are two zeros among them. -/
theorem finite_of_proportion (hlow : 0.0 ≤ x) (hhigh : x ≤ 1.0) :
    x.isFinite ∧ (signBit x → (Binary.ofFloat x).m = 0) ∧ (Binary.ofFloat x).value ≤ 1 := by
  rw [← double_one] at hhigh
  have hbetween := finite_of_between Binary.finite_one hlow hhigh
  rwa [Binary.value_one] at hbetween

/-- A double that is at most one is written as a small numeral. -/
theorem small_of_le_one (hfinite : x.isFinite) (hsign : signBit x = false)
    (hle : (Binary.ofFloat x).value ≤ 1) : (Numeral.ofFloat .json x).Small := by
  have hx := (unpack_of_isFinite hfinite).2
  have hdouble := double_ofFloat hfinite
  rw [sign, hsign, if_neg Bool.false_ne_true] at hdouble
  by_cases hzero : (Binary.ofFloat x).m = 0
  · rw [← hdouble, hx.toCanonical.eq_zero hzero, double_zero]
    exact small_zero
  · rcases hle.lt_or_eq with hlt | heq
    · exact small_of_lt_one hzero hx.toCanonical hlt
    · have hb : Binary.ofFloat x = .one :=
        hx.toCanonical.eq_of_value_eq Binary.finite_one.toCanonical
          (heq.trans Binary.value_one.symm)
      rw [← hdouble, hb, double_one]
      exact small_one

/-- A proportion is a magnitude of one at most. With a sign it is zero. -/
theorem exists_of_proportion (hlow : 0.0 ≤ x) (hhigh : x ≤ 1.0) :
    ∃ (s : Sign) (b : Binary), b.Finite ∧ (s = .positive ∨ b.m = 0) ∧ b.value ≤ 1 ∧
      x = double s b := by
  obtain ⟨hfinite, hnegative, hle⟩ := finite_of_proportion hlow hhigh
  refine ⟨sign x, Binary.ofFloat x, (unpack_of_isFinite hfinite).2, ?_, hle,
    (double_ofFloat hfinite).symm⟩
  by_cases hsign : signBit x
  · exact .inr (hnegative hsign)
  · exact .inl (if_neg hsign)

/-- **A proportion in writing is read as a proportion.** -/
theorem proportion_toNumber? (hlow : 0.0 ≤ x) (hhigh : x ≤ 1.0) :
    ∃ y : Float, (Numeral.ofFloat .json x).toNumber? = some (.double y) ∧ 0.0 ≤ y ∧ y ≤ 1.0 := by
  obtain ⟨hfinite, hnegative, hle⟩ := finite_of_proportion hlow hhigh
  have hx := (unpack_of_isFinite hfinite).2
  have hdouble := double_ofFloat hfinite
  cases hsign : signBit x with
  | true =>
    rw [sign, hsign, if_pos rfl, hx.toCanonical.eq_zero (hnegative hsign)] at hdouble
    rw [← hdouble]
    -- With a sign it can only be zero.
    exact ⟨double .negative .zero, rfl, by decide, by decide⟩
  | false =>
    have hsmall := small_of_le_one hfinite hsign hle
    obtain ⟨c, hc, hcle, hnumber⟩ := hsmall.toNumber? (wf_ofFloat _ _)
    rw [negative_ofFloat, hsign] at hnumber
    refine ⟨_, hnumber, ?_, ?_⟩
    · rw [← double_zero]
      exact (double_le_iff finite_zero hc).mpr (Binary.value_zero.trans_le c.value_nonneg)
    · rw [← double_one]
      exact (double_le_iff hc Binary.finite_one).mpr (hcle.trans_eq Binary.value_one.symm)

end Roster.Decimal
