import Mathlib
import Roster.Proofs.Decimal.Binary

/-!
# Rounding

The operations on doubles compute with more bits than a double has and round at the end. What they
have then is a significand with two more bits, one for the half and one for everything below it;
`Describes` says of which number these are the bits. Shifting them halves the number
(`Describes.shiftRight`), and rounding them gives a significand at a distance of a half at most,
which is even at exactly a half (`Describes.near`).

From there, `roundWithAccuracy_takes` gets to the relation `Binary.Takes`: the two cases are whether
the rounded significand still has 53 bits or has become the next power of two.
-/

namespace Roster.Decimal

open Float.Model Float.Model.UnpackedFloat

/-! ## Significands with two more bits -/

/-- These are the bits of the number, the last one set if there is anything below the half. -/
def Describes : ExtendedMantissa → ℚ → Prop
  | ⟨m, false, false⟩, v => v = m
  | ⟨m, false, true⟩, v => m < v ∧ v < m + 1 / 2
  | ⟨m, true, false⟩, v => v = m + 1 / 2
  | ⟨m, true, true⟩, v => m + 1 / 2 < v ∧ v < m + 1

variable {em : ExtendedMantissa} {v : ℚ}

/-- A significand of which nothing has been cut off describes itself. -/
theorem describes_exact (m : ℕ) : Describes (.ofMantissaAndAccuracy m .exact) m :=
  rfl

/-- A remainder, compared with half of the divisor, gives the two bits of a quotient. -/
theorem describes_quotient (n : ℕ) {d : ℕ} (hd : 0 < d) :
    Describes (.ofMantissaAndAccuracy (n / d) (accuracyOfFraction (n % d) d)) (n / d) := by
  have hpos : (0 : ℚ) < d := by exact_mod_cast hd
  have hdiv : (n : ℚ) / d = (n / d : ℕ) + (n % d : ℕ) / d := by
    have hcast : (d : ℚ) * (n / d : ℕ) + (n % d : ℕ) = n := by exact_mod_cast Nat.div_add_mod n d
    field_simp
    linarith
  have hlt : ((n % d : ℕ) : ℚ) / d < 1 := by
    rw [div_lt_one hpos]
    exact_mod_cast Nat.mod_lt n hd
  rw [hdiv]
  unfold accuracyOfFraction
  split
  · next hzero =>
    rw [hzero]
    change _ = _
    simp
  · next hne =>
    have hfraction : (0 : ℚ) < (n % d : ℕ) / d :=
      div_pos (by exact_mod_cast Nat.pos_of_ne_zero hne) hpos
    rcases hcompare : compare (2 * (n % d)) d with _ | _ | _
    · have hhalf : ((n % d : ℕ) : ℚ) / d < 1 / 2 := by
        rw [div_lt_iff₀ hpos]
        have hcast : (2 : ℚ) * (n % d : ℕ) < d := by exact_mod_cast Nat.compare_eq_lt.mp hcompare
        linarith
      exact ⟨by linarith, by linarith⟩
    · have hhalf : ((n % d : ℕ) : ℚ) / d = 1 / 2 := by
        rw [div_eq_iff hpos.ne']
        have hcast : (2 : ℚ) * (n % d : ℕ) = d := by exact_mod_cast Nat.compare_eq_eq.mp hcompare
        linarith
      rw [hhalf]
      rfl
    · have hhalf : 1 / 2 < ((n % d : ℕ) : ℚ) / d := by
        rw [lt_div_iff₀ hpos]
        have hcast : (d : ℚ) < 2 * (n % d : ℕ) := by exact_mod_cast Nat.compare_eq_gt.mp hcompare
        linarith
      exact ⟨by linarith, by linarith⟩

theorem Describes.lt (h : Describes em v) : v < em.mantissa + 1 := by
  obtain ⟨m, _ | _, _ | _⟩ := em <;> simp only [Describes] at h <;> dsimp only <;> linarith

theorem Describes.le (h : Describes em v) : em.mantissa ≤ v := by
  obtain ⟨m, _ | _, _ | _⟩ := em <;> simp only [Describes] at h <;> dsimp only <;> linarith

theorem Describes.shiftRightOne (h : Describes em v) : Describes em.shiftRightOne (v / 2) := by
  obtain ⟨m, roundBit, stickyBit⟩ := em
  rcases Nat.even_or_odd' m with ⟨k, rfl | rfl⟩
  · have hhalf : 2 * k / 2 = k := by omega
    have hbit : (2 * k % 2 != 0) = false := by simp
    simp only [ExtendedMantissa.shiftRightOne, hhalf, hbit]
    cases roundBit <;> cases stickyBit <;>
      simp only [Describes, Bool.or_true, Bool.or_false] at h ⊢ <;>
      push_cast at h
    · linarith
    · constructor <;> linarith
    · constructor <;> linarith
    · constructor <;> linarith
  · have hhalf : (2 * k + 1) / 2 = k := by omega
    have hbit : ((2 * k + 1) % 2 != 0) = true := by simp [Nat.add_mod]
    simp only [ExtendedMantissa.shiftRightOne, hhalf, hbit]
    cases roundBit <;> cases stickyBit <;>
      simp only [Describes, Bool.or_true, Bool.or_false] at h ⊢ <;>
      push_cast at h
    · linarith
    · constructor <;> linarith
    · constructor <;> linarith
    · constructor <;> linarith

/-- Cutting off digits describes the number that is smaller by as many powers of two. -/
theorem Describes.shiftRight (h : Describes em v) (n : ℕ) : Describes (em >>> n) (v / 2 ^ n) := by
  change Describes (n.repeat ExtendedMantissa.shiftRightOne em) _
  induction n with
  | zero => simpa [Nat.repeat] using h
  | succ n ih =>
    rw [pow_succ, ← div_div]
    exact ih.shiftRightOne

theorem mantissa_shiftRight (em : ExtendedMantissa) (n : ℕ) :
    (em >>> n).mantissa = em.mantissa / 2 ^ n := by
  change (n.repeat ExtendedMantissa.shiftRightOne em).mantissa = _
  induction n with
  | zero => simp [Nat.repeat]
  | succ n ih =>
    rw [pow_succ, ← Nat.div_div_eq_div_mul, ← ih]
    rfl

theorem mantissa_ofMantissaAndAccuracy (m : ℕ) (accuracy : Accuracy) :
    (ExtendedMantissa.ofMantissaAndAccuracy m accuracy).mantissa = m := by
  rcases accuracy with _ | (_ | _ | _) <;> rfl

/-- The significand is nearest to the number, and even if another one is as near. -/
structure Near (m : ℕ) (v : ℚ) : Prop where
  low : (m - 1 / 2 : ℚ) < v ∨ m % 2 = 0 ∧ (m - 1 / 2 : ℚ) = v
  high : v < (m + 1 / 2 : ℚ) ∨ m % 2 = 0 ∧ v = (m + 1 / 2 : ℚ)

/-- A rounded significand is nearest to the number that it describes, and is the next one at
    most. -/
theorem Describes.near (h : Describes em v) :
    Near em.roundedMantissa v ∧
      (em.roundedMantissa = em.mantissa ∨ em.roundedMantissa = em.mantissa + 1) := by
  obtain ⟨m, _ | _, _ | _⟩ := em
  · change v = m at h
    exact ⟨⟨.inl (by change (m : ℚ) - 1 / 2 < v; linarith),
      .inl (by change v < m + 1 / 2; linarith)⟩, .inl rfl⟩
  · obtain ⟨hlow, hhigh⟩ := h
    exact ⟨⟨.inl (by change (m : ℚ) - 1 / 2 < v; linarith), .inl hhigh⟩, .inl rfl⟩
  · change v = m + 1 / 2 at h
    -- Exactly at the half, the last bit of the significand decides.
    change Near (m + m % 2) v ∧ (m + m % 2 = m ∨ m + m % 2 = m + 1)
    rcases Nat.mod_two_eq_zero_or_one m with heven | hodd
    · rw [heven, add_zero]
      exact ⟨⟨.inl (by linarith), .inr ⟨heven, h⟩⟩, .inl rfl⟩
    · rw [hodd]
      refine ⟨⟨.inr ⟨by omega, ?_⟩, .inl ?_⟩, .inr rfl⟩ <;> push_cast <;> linarith
  · obtain ⟨hlow, hhigh⟩ := h
    change Near (m + 1) v ∧ _
    refine ⟨⟨.inl ?_, .inl ?_⟩, .inr rfl⟩ <;> push_cast <;> linarith

/-! ## Results -/

namespace Binary

/-- The double with these parts. The gap below it is half of the one above at a power of two, but
    not at the least exponent. -/
def ofParts (m : ℕ) (q : ℤ) : Binary :=
  ⟨m, q, decide (m = 2 ^ 52 ∧ -1074 < q)⟩

theorem canonical_ofParts {m : ℕ} {q : ℤ} (hm : m < 2 ^ 53) (hq : -1074 ≤ q)
    (h : 2 ^ 52 ≤ m ∨ q = -1074) : (ofParts m q).Canonical :=
  ⟨hm, hq, h, by simp [ofParts]⟩

/-- A canonical form has no more to it than its two parts. -/
theorem Canonical.eq_ofParts {b : Binary} (h : b.Canonical) : b = ofParts b.m b.q := by
  have hnarrow : b.narrowBelow = decide (b.m = 2 ^ 52 ∧ -1074 < b.q) := by
    rw [Bool.eq_iff_iff, h.narrow, decide_eq_true_iff]
  rw [ofParts, ← hnarrow]

/-- The magnitude with a sign, as the operations on doubles have it. -/
def unpacked (s : Sign) (b : Binary) : UnpackedFloat :=
  if h : b.m = 0 then .zero s else .finite s b.m b.q (Nat.pos_of_ne_zero h)

/-- A significand that is nearest makes a double that is. -/
theorem takes_of_near {m : ℕ} {q : ℤ} (hnear : Near m v) (hle : m = 2 ^ 52 → -1074 < q → m ≤ v) :
    (ofParts m q).Takes (v * 2 ^ q) := by
  have hpos := scale_pos q
  constructor
  · by_cases hnarrow : m = 2 ^ 52 ∧ -1074 < q
    · left
      have hlow : (ofParts m q).low = (m - 1 / 4) * 2 ^ q := by
        simp [low, ofParts, hnarrow.1, hnarrow.2]
      rw [hlow]
      exact mul_lt_mul_of_pos_right (by linarith [hle hnarrow.1 hnarrow.2]) hpos
    · have hlow : (ofParts m q).low = (m - 1 / 2) * 2 ^ q := by
        rw [low, ofParts, if_neg (by simpa using hnarrow)]
      rw [hlow]
      rcases hnear.low with hlt | ⟨heven, heq⟩
      · exact .inl (mul_lt_mul_of_pos_right hlt hpos)
      · exact .inr ⟨heven, by rw [heq]⟩
  · rcases hnear.high with hlt | ⟨heven, heq⟩
    · exact .inl (mul_lt_mul_of_pos_right hlt hpos)
    · exact .inr ⟨heven, by rw [heq]; rfl⟩

/-- So does one that has become the next power of two. -/
theorem takes_of_carry {q : ℤ} (hnear : Near (2 ^ 53) v) (hq : -1074 ≤ q) (hlt : v < 2 ^ 53) :
    (ofParts (2 ^ 52) (q + 1)).Takes (v * 2 ^ q) := by
  have hpos := scale_pos q
  have hscale : (2 : ℚ) ^ (q + 1) = 2 * 2 ^ q := by
    rw [zpow_add_one₀ two_ne_zero, mul_comm]
  constructor
  · have hlow : (ofParts (2 ^ 52) (q + 1)).low = (2 ^ 53 - 1 / 2) * 2 ^ q := by
      rw [low, ofParts, if_pos (by simp; omega), hscale]
      push_cast
      ring
    rw [hlow]
    rcases hnear.low with hlt | ⟨-, heq⟩
    · push_cast at hlt
      exact .inl (mul_lt_mul_of_pos_right hlt hpos)
    · refine .inr ⟨by simp [ofParts], ?_⟩
      rw [← heq]
      norm_num
  · left
    calc
      v * 2 ^ q < 2 ^ 53 * 2 ^ q := mul_lt_mul_of_pos_right hlt hpos
      _ < (ofParts (2 ^ 52) (q + 1)).high := by
        rw [high, ofParts, hscale]
        push_cast
        nlinarith

end Binary

/-! ## The program's rounding -/

/-- The exponent that a significand is brought to leaves 53 digits, unless it is the least one. -/
theorem targetExponent_eq (m : ℕ) (e : ℤ) :
    Format.binary64.targetExponent (totalExponent m e) = max (m.log2 + e - 52) (-1074) := by
  simp only [Format.targetExponent, totalExponent, Format.mantissaBits, Format.minExponent]
  norm_num
  omega

/-- What has 53 bits already is not shifted. -/
theorem shiftToTargetExponent_of_lt {m : ℕ} {e : ℤ} (hm : m < 2 ^ 53) (he : -1074 ≤ e) :
    shiftToTargetExponent .binary64 m e .exact = (.ofMantissaAndAccuracy m .exact, e) := by
  have hlog : m.log2 ≤ 52 := by
    by_cases hzero : m = 0
    · simp [hzero]
    · exact Nat.lt_succ_iff.mp ((Nat.log2_lt hzero).mpr hm)
  have hshift : (max (m.log2 + e - 52) (-1074) - e).toNat = 0 := by omega
  simp [shiftToTargetExponent, targetExponent_eq, shiftToExponent, hshift, HShiftRight.hShiftRight,
    Nat.repeat]

theorem shiftToTargetExponent_carry {e : ℤ} (he : -1074 ≤ e) :
    shiftToTargetExponent .binary64 (2 ^ 53) e .exact =
      (.ofMantissaAndAccuracy (2 ^ 52) .exact, e + 1) := by
  have hlog : (2 ^ 53).log2 = 53 := Nat.log2_two_pow
  have hshift : (max ((53 : ℕ) + e - 52) (-1074) - e).toNat = 1 := by omega
  simp only [shiftToTargetExponent, targetExponent_eq, hlog, shiftToExponent, hshift]
  rfl

/-- The first shift leaves a significand of 53 bits, or of fewer at the least exponent. -/
theorem shifted_bounds {m : ℕ} {e t : ℤ} (ht : t = max (m.log2 + e - 52) (-1074)) (he : e ≤ t) :
    m / 2 ^ (t - e).toNat < 2 ^ 53 ∧ (2 ^ 52 ≤ m / 2 ^ (t - e).toNat ∨ t = -1074) := by
  constructor
  · rw [Nat.div_lt_iff_lt_mul (by positivity), ← pow_add]
    calc
      m < 2 ^ (m.log2 + 1) := Nat.lt_log2_self
      _ ≤ 2 ^ (53 + (t - e).toNat) := Nat.pow_le_pow_right two_pos (by omega)
  · by_cases hleast : t = -1074
    · exact .inr hleast
    · left
      have hzero : m ≠ 0 := by
        rintro rfl
        simp only [Nat.log2_zero] at ht
        omega
      rw [Nat.le_div_iff_mul_le (by positivity), ← pow_add]
      calc
        2 ^ (52 + (t - e).toNat) ≤ 2 ^ m.log2 := Nat.pow_le_pow_right two_pos (by omega)
        _ ≤ m := Nat.log2_self_le hzero

/-- There are two shifts, before the rounding and after it. -/
theorem roundWithAccuracy_eq {s : Sign} {m : ℕ} {e t : ℤ} {accuracy : Accuracy}
    (hfirst : shiftToTargetExponent .binary64 m e accuracy = (em, t)) :
    roundWithAccuracy .binary64 s m e accuracy =
      (Binary.ofParts (shiftToTargetExponent .binary64 em.roundedMantissa t .exact).1.mantissa
        (shiftToTargetExponent .binary64 em.roundedMantissa t .exact).2).unpacked s := by
  have heq : roundWithAccuracy .binary64 s m e accuracy =
      (Binary.ofParts
        (shiftToTargetExponent .binary64
          (shiftToTargetExponent .binary64 m e accuracy).1.roundedMantissa
          (shiftToTargetExponent .binary64 m e accuracy).2 .exact).1.mantissa
        (shiftToTargetExponent .binary64
          (shiftToTargetExponent .binary64 m e accuracy).1.roundedMantissa
          (shiftToTargetExponent .binary64 m e accuracy).2 .exact).2).unpacked s := rfl
  rw [heq, hfirst]

/-- **Rounding gives the double that the exact result rounds to.** -/
theorem roundWithAccuracy_takes (s : Sign) {m : ℕ} {e : ℤ} {accuracy : Accuracy}
    (h : Describes (.ofMantissaAndAccuracy m accuracy) v)
    (he : e ≤ Format.binary64.targetExponent (totalExponent m e)) :
    ∃ b : Binary, b.Canonical ∧ b.Takes (v * 2 ^ e) ∧
      roundWithAccuracy .binary64 s m e accuracy = b.unpacked s := by
  rw [targetExponent_eq] at he
  generalize ht : max (m.log2 + e - 52) (-1074) = t at he
  -- What is left of the significand, before it is rounded.
  obtain ⟨hlt, hnormal⟩ := shifted_bounds ht.symm he
  have hleast : -1074 ≤ t := by omega
  have hdescribes := h.shiftRight (t - e).toNat
  have hmantissa := mantissa_shiftRight (.ofMantissaAndAccuracy m accuracy) (t - e).toNat
  rw [mantissa_ofMantissaAndAccuracy] at hmantissa
  rw [← hmantissa] at hlt hnormal
  have hfirst : shiftToTargetExponent .binary64 m e accuracy =
      (ExtendedMantissa.ofMantissaAndAccuracy m accuracy >>> (t - e).toNat, t) := by
    rw [shiftToTargetExponent, targetExponent_eq, ht, shiftToExponent]
    exact Prod.ext rfl (by omega)
  -- The shift divides the number by as much as the larger exponent multiplies it.
  have hscale : v / 2 ^ (t - e).toNat * 2 ^ t = v * 2 ^ e := by
    rw [div_mul_eq_mul_div, div_eq_iff (by positivity), mul_assoc, ← zpow_natCast,
      ← zpow_add₀ two_ne_zero]
    congr 2
    omega
  rw [← hscale, roundWithAccuracy_eq hfirst]
  generalize ExtendedMantissa.ofMantissaAndAccuracy m accuracy >>> (t - e).toNat = em at *
  generalize v / 2 ^ (t - e).toNat = w at *
  obtain ⟨hnear, hrounded⟩ := hdescribes.near
  by_cases hcarry : em.roundedMantissa = 2 ^ 53
  · -- all bits were set
    rw [hcarry] at hnear ⊢
    have hbelow : w < 2 ^ 53 := by
      have hcast : (em.mantissa : ℚ) + 1 ≤ 2 ^ 53 := by exact_mod_cast hlt
      linarith [hdescribes.lt]
    refine ⟨.ofParts (2 ^ 52) (t + 1),
      Binary.canonical_ofParts (by norm_num) (by omega) (.inl le_rfl),
      Binary.takes_of_carry hnear hleast hbelow, ?_⟩
    rw [shiftToTargetExponent_carry hleast, mantissa_ofMantissaAndAccuracy]
  · refine ⟨.ofParts em.roundedMantissa t, Binary.canonical_ofParts (by omega) hleast (by omega),
      Binary.takes_of_near hnear fun hm hq => ?_, ?_⟩
    · -- a power of two above the least exponent is where the significand was already
      have hsame : em.roundedMantissa = em.mantissa := by omega
      rw [hsame]
      exact hdescribes.le
    · rw [shiftToTargetExponent_of_lt (by omega) hleast, mantissa_ofMantissaAndAccuracy]

end Roster.Decimal
