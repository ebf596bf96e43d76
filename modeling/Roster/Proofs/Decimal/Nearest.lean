import Roster.Proofs.Decimal.Layout
import Roster.Proofs.Decimal.Operations

/-!
# The double nearest to digits

Digits and a power of ten are rounded once, and all digits that are there count (`nearest_eq`). The
reader does not always multiply: from the number of the digits it sees whether the result is far too
large or far too small. That these shortcuts give what rounding would have given is
`rounded_nearest`, and all else about `nearest` comes from there.
-/

namespace Roster.Decimal

open Float.Model.UnpackedFloat (Sign)

variable {ds : List Char} {b : Binary} {e : ℤ} {x : Float}

/-! ## Digits -/

theorem natOfDigits_cons (c : Char) (ds : List Char) :
    natOfDigits (c :: ds) = natOfDigits [c] * 10 ^ ds.length + natOfDigits ds :=
  @natOfDigits_append [c] ds

theorem natOfDigits_singleton (c : Char) : natOfDigits [c] = c.toNat - 48 := by
  simp [natOfDigits, Nat.ofDigitChars_cons]

/-- Zeros in front do not matter to a number. -/
theorem natOfDigits_dropWhile (ds : List Char) :
    natOfDigits (ds.dropWhile (· == '0')) = natOfDigits ds := by
  induction ds with
  | nil => rfl
  | cons c ds ih =>
    rw [List.dropWhile_cons]
    split
    · next hzero =>
      rw [ih, natOfDigits_cons, beq_iff_eq.mp hzero, natOfDigits_zero, Nat.zero_mul, Nat.zero_add]
    · rfl

/-- A number is bounded by the count of its digits. -/
theorem natOfDigits_lt (h : ∀ c ∈ ds, c.isDigit) : natOfDigits ds < 10 ^ ds.length := by
  induction ds with
  | nil => simp [natOfDigits]
  | cons c ds ih =>
    have hc : natOfDigits [c] ≤ 9 := by
      have hdigit := h c (by simp)
      simp only [Char.isDigit, Bool.and_eq_true, decide_eq_true_eq,
        UInt32.le_iff_toNat_le] at hdigit
      rw [natOfDigits_singleton]
      have hle : c.toNat ≤ 57 := hdigit.2
      omega
    have hrest := ih fun c hc => h c (List.mem_cons_of_mem _ hc)
    rw [natOfDigits_cons, List.length_cons, pow_succ]
    nlinarith

/-- Digits that do not begin with a zero make a number as large as they are many. -/
theorem le_natOfDigits {c : Char} (hdigit : c.isDigit) (hzero : c ≠ '0') :
    10 ^ ds.length ≤ natOfDigits (c :: ds) := by
  have hc : 1 ≤ natOfDigits [c] := by
    simp only [Char.isDigit, Bool.and_eq_true, decide_eq_true_eq, UInt32.le_iff_toNat_le] at hdigit
    have hle : 48 ≤ c.toNat := hdigit.1
    have hne : c.toNat ≠ 48 := fun heq => hzero (Char.toNat_inj.mp heq)
    rw [natOfDigits_singleton]
    omega
  rw [natOfDigits_cons]
  nlinarith [Nat.zero_le (natOfDigits ds), Nat.pow_pos (n := ds.length) (show 0 < 10 by decide)]

/-! ## The nearest double -/

/-- Where the powers of two stand among those of ten at both ends of the doubles: above the largest
    and below it, half the least, the least, and eight times the least. -/
theorem powers_at_ends :
    2 ^ 53 * 2 ^ 971 < 10 ^ 310 ∧ 10 ^ 308 ≤ (2 ^ 53 - 1) * 2 ^ 971 ∧
      2 ^ 1075 < 10 ^ 330 ∧ 2 ^ 1074 ≤ 10 ^ 324 ∧ 8 * 10 ^ 308 ≤ 2 ^ 1074 := by
  decide +kernel

/-- Far below all doubles there is only zero. -/
theorem takes_zero {v : ℚ} (hpos : 0 ≤ v) (hlt : v < 10 ^ (-330 : ℤ)) : Binary.zero.Takes v := by
  obtain ⟨-, -, hpowers, -⟩ := powers_at_ends
  have hhigh : (10 : ℚ) ^ (-330 : ℤ) < Binary.zero.high := by
    have hhalf : Binary.zero.high = (2 ^ 1075)⁻¹ := by
      change ((0 : ℕ) + 1 / 2 : ℚ) * 2 ^ (-1074 : ℤ) = (2 ^ 1075)⁻¹
      rw [pow_succ, zpow_neg, mul_inv, mul_comm]
      norm_num
    rw [hhalf, zpow_neg]
    exact inv_strictAnti₀ (by positivity) (by exact_mod_cast hpowers)
  constructor
  · refine .inl (lt_of_lt_of_le ?_ hpos)
    exact Binary.zero.low_lt_value.trans_eq Binary.value_zero
  · exact .inl (hlt.trans hhigh)

/-- What is rounded to a number is the double that takes it. -/
theorem Rounded.eq_of_takes {v : ℚ} {s : Sign} (h : Rounded v s x) (htakes : b.Takes v)
    (hb : b.Canonical) : x = double s b := by
  obtain ⟨a, ha, htakes', rfl⟩ := h
  rw [htakes'.unique htakes ha hb]

theorem pow_le_scaled {n k : ℕ} (h : 10 ^ k ≤ n) (e : ℤ) : (10 : ℚ) ^ (e + k) ≤ n * 10 ^ e := by
  rw [add_comm, zpow_add₀ (by norm_num), zpow_natCast]
  exact mul_le_mul_of_nonneg_right (by exact_mod_cast h) (by positivity)

theorem scaled_lt_pow {n k : ℕ} (h : n < 10 ^ k) (e : ℤ) : (n * 10 ^ e : ℚ) < 10 ^ (e + k) := by
  rw [add_comm, zpow_add₀ (by norm_num), zpow_natCast]
  exact mul_lt_mul_of_pos_right (by exact_mod_cast h) (by positivity)

theorem overflow_lt : overflow < 10 ^ 310 := by
  obtain ⟨hpowers, -⟩ := powers_at_ends
  have hcast : (2 : ℚ) ^ 53 * 2 ^ 971 < 10 ^ 310 := by exact_mod_cast hpowers
  have hpos : (0 : ℚ) < 2 ^ 970 := by positivity
  rw [pow_succ 2 970] at hcast
  refine lt_trans ?_ hcast
  rw [overflow]
  generalize (2 : ℚ) ^ 970 = scale at *
  linarith only [hpos]

/-- **Digits are rounded, unless there are so many that the result is too large in any case.** -/
theorem rounded_nearest (hds : ∀ c ∈ ds, c.isDigit) (e : ℤ) :
    overflow ≤ natOfDigits ds * 10 ^ e ∧ ¬ (nearest ds e).isFinite ∨
      Rounded (natOfDigits ds * 10 ^ e) .positive (nearest ds e) := by
  rw [← natOfDigits_dropWhile]
  have hsignificant : ∀ c ∈ ds.dropWhile (· == '0'), c.isDigit :=
    fun c hc => hds c (List.dropWhile_sublist _ |>.subset hc)
  have hhead := List.head?_dropWhile_not (· == '0') ds
  rw [nearest]
  generalize ds.dropWhile (· == '0') = significant at *
  cases significant with
  | nil =>
    refine .inr ⟨.zero, Binary.canonical_zero, ?_, double_zero⟩
    simpa [natOfDigits, Binary.value_zero] using Binary.zero.takes_value
  | cons c rest =>
    -- the number of digits tells the size to a factor of ten, and that is all that the
    -- shortcuts look at
    have hlow := @le_natOfDigits rest c (hsignificant c (by simp)) (by simpa using hhead)
    have hhigh := natOfDigits_lt hsignificant
    generalize natOfDigits (c :: rest) = n at *
    have hlength : ((c :: rest).length : ℤ) = rest.length + 1 := by simp
    simp only [List.isEmpty_cons, Bool.false_eq_true, if_false]
    split
    · next hbig =>
      have hle : (10 : ℚ) ^ (310 : ℤ) ≤ 10 ^ (e + rest.length) :=
        zpow_le_zpow_right₀ (by norm_num) (by omega)
      exact .inl ⟨overflow_lt.le.trans (hle.trans (pow_le_scaled hlow e)), by decide⟩
    · next hbig =>
      right
      split
      · next hsmall =>
        refine ⟨.zero, Binary.canonical_zero, ?_, double_zero⟩
        refine takes_zero (by positivity) ((scaled_lt_pow hhigh e).trans_le ?_)
        exact zpow_le_zpow_right₀ (by norm_num) (by omega)
      · next hsmall =>
        have hn : n ≠ 0 := by
          have := Nat.pow_pos (n := rest.length) (show 0 < 10 by decide)
          omega
        -- Many digits make a number large enough for the power of ten to be within bounds.
        have hlog : rest.length ≤ n.log2 := by
          rw [Nat.le_log2 hn]
          exact (Nat.pow_le_pow_left (by decide) _).trans hlow
        exact rounded_decimal hn (by omega) (by omega)

/-- **What is read is the double that the digits round to.** -/
theorem nearest_eq (hb : b.Finite) (hds : ∀ c ∈ ds, c.isDigit)
    (htakes : b.Takes (natOfDigits ds * 10 ^ e)) : nearest ds e = double .positive b := by
  rcases rounded_nearest hds e with ⟨hle, -⟩ | hrounded
  · exact absurd ((htakes.finite_iff hb.toCanonical).mp hb) (not_lt.mpr hle)
  · exact hrounded.eq_of_takes htakes hb.toCanonical

/-- What is read as a finite double is not too large, and rounds to it. -/
theorem exists_of_nearest (hds : ∀ c ∈ ds, c.isDigit) (hfinite : (nearest ds e).isFinite) :
    ∃ b : Binary, b.Finite ∧ b.Takes (natOfDigits ds * 10 ^ e) ∧
      nearest ds e = double .positive b := by
  rcases rounded_nearest hds e with ⟨-, hnot⟩ | ⟨b, hb, htakes, heq⟩
  · exact absurd hfinite hnot
  · rw [heq] at hfinite
    exact ⟨b, (isFinite_double_iff hb).mp hfinite, htakes, heq⟩

/-- A number below `overflow` is taken by some finite double. -/
theorem exists_finite_of_lt (hds : ∀ c ∈ ds, c.isDigit) (hlt : natOfDigits ds * 10 ^ e < overflow) :
    ∃ b : Binary, b.Finite ∧ b.Takes (natOfDigits ds * 10 ^ e) := by
  rcases rounded_nearest hds e with ⟨hle, -⟩ | ⟨b, hb, htakes, -⟩
  · exact absurd hlt (not_lt.mpr hle)
  · exact ⟨b, (htakes.finite_iff hb).mpr hlt, htakes⟩

end Roster.Decimal
